import Flow.Ports.DurableStreamInvariant

/-!
# A durable stream writes every change once

The invariant holds along every sound run, it accounts for every change that is
owed, and the stream's own steps come to an end.
-/

namespace Flow.Ports.DurableStream

open List Option Flow.Verified
open Run (Reaches)

section Runs

variable {visible : Nat → Bool} {st st' : State} {l : Label}

theorem Inv.start (visible : Nat → Bool) (since : Int) : Inv visible (State.start since) := by
  refine ⟨⟨nofun, nofun, nofun, nodup_nil, Nat.le_refl _, fun hn => ?_, nofun, nofun⟩,
    ⟨nodup_nil, nofun, nofun⟩,
    ⟨fun _ _ seq hpos hsince hle _ => ?_, nofun, fun h => absurd rfl h, nofun,
      fun h => absurd rfl h⟩⟩
  · have hneg : ¬ 0 ≤ since := of_decide_eq_false hn
    refine ⟨?_, .inl rfl⟩
    show since.toNat = 0
    omega
  · have hlt : since < seq := hsince
    have hupto : seq ≤ since.toNat := hle
    omega

theorem Inv.step (h : Inv visible st) (hok : Sound st l) (hstep : step visible st l = some st') :
    Inv visible st' := by
  by_cases hl : l.delivery
  · exact h.delivers (delivers_of_step hl hstep)
  revert hok hstep
  fun_cases DurableStream.step visible st l
  case case6 | case7 | case8 | case9 => exact absurd rfl hl
  all_goals rintro hok ⟨⟩
  next => exact h.commit
  next => exact h.prune _
  next hpush =>
    obtain rfl := hok
    exact h.push hpush.1 hpush.2.1 (hpush.2.2 rfl)
  next hp => exact h.subscribe hp
  next hp => exact h.readPage hp (of_decide_eq_true hok)
  next hp => exact h.record hp
  next hp => exact h.pageEnd hp
  next hp => exact h.mark hp
  next hchannel hp => exact h.receive hp hchannel
  next => exact h.stop

/-- Every change that is owed is accounted for. -/
theorem Inv.accounted (h : Inv visible st) {seq : Nat} (hpos : 0 < seq) (hbase : st.base < seq)
    (hle : seq ≤ st.head) (hv : visible seq) : Accounted st seq := by
  obtain ⟨hb, ho, hc⟩ := h
  have hfound : Tracked visible st seq → st.cursor < seq → (∀ m, st.marked = some m → m < seq) →
      Accounted st seq := by
    intro ht hlt hmarked
    cases ht with
    | unpushed h => exact .unpushed h
    | transit h => exact .transit h
    | written h => exact .written h
    | hidden h => exact absurd (hv.symm.trans h) nofun
    | replayed h hc => exact absurd hc (Nat.not_le.mpr hlt)
    | marker h => exact .marker h
    | marked m h hm => exact absurd hm (Nat.not_le.mpr (hmarked m h))
  have hreplay : st.marked = none → st.phase.replaying → Accounted st seq := by
    intro hm hr
    by_cases hcur : seq ≤ st.cursor
    · have hsince : st.since < seq := by simpa only [State.base, hm] using hbase
      exact .written (hc.replayed hm (.inl hr) seq hpos hsince hcur hv)
    · exact .ahead hr (Nat.not_le.mp hcur)
  cases hp : st.phase with
  | opening | reading | writing =>
    exact hreplay (hc.unmarked (hp ▸ nofun) (hp ▸ nofun)) (by rw [hp]; rfl)
  | marking => exact .marking hp
  | ended => exact .ended hp
  | live =>
    have htracked := hc.tracked (hp ▸ nofun) (hp ▸ nofun) seq
    cases hm : st.marked with
    | none =>
      have hsince : st.since < seq := by simpa only [State.base, hm] using hbase
      by_cases hcur : seq ≤ st.cursor
      · exact .written (hc.replayed hm (.inr hp) seq hpos hsince hcur hv)
      · have hlt := Nat.not_le.mp hcur
        rcases hc.reached hp hm with hj | hmarker
        · exact hfound (htracked (Nat.lt_of_le_of_lt hj hlt) hle) hlt
            fun m h => absurd (hm.symm.trans h) nofun
        · exact .marker hmarker
    | some head =>
      have hlt : head < seq := by
        have : (head : Int) < seq := by simpa only [State.base, hm] using hbase
        omega
      obtain ⟨hcur, hj⟩ := hc.marked_le head hm
      refine hfound (htracked (Nat.lt_of_le_of_lt hj hlt) hle) (Nat.lt_of_le_of_lt hcur hlt)
        fun m h => ?_
      obtain rfl := some.inj (hm.symm.trans h)
      exact hlt

/-! ## The stream comes to an end -/

/-- The steps that are left of the replay: every page takes one to read it, one for
every record and one to go on. -/
def Phase.work : Phase → Nat
  | .opening => (maxReplayPages + 1) * (maxChangesLimit + 3) + 1
  | .reading pages => (pages + 1) * (maxChangesLimit + 3)
  | .writing records _ pages => pages * (maxChangesLimit + 3) + records.length + 2
  | .marking => 1
  | .live => 0
  | .ended => 0

/-- The steps that are left: an event in the hub is delivered and then taken. -/
def State.work (st : State) : Nat := st.phase.work + st.channel.length + 2 * st.hub.length

theorem offer_length_le (channel : List Item) (item : Item) (takes : List Bool) :
    (offer channel item takes).length ≤ channel.length + 1 := by
  obtain h | ⟨kept, hsub, h⟩ := offer_spec channel item takes
  · rw [h, length_append]
    exact Nat.le_refl _
  · rw [h, length_append]
    exact Nat.succ_le_succ hsub.length_le

theorem write_work (visible : Nat → Bool) (st : State) (seq : Nat) :
    (st.write visible seq).work = st.work := by
  rw [write_eq]
  rfl

theorem receive_work (visible : Nat → Bool) (st : State) (item : Item) :
    (st.receive visible item).work = st.work ∧ (st.receive visible item).cursor = st.cursor ∧
      (st.receive visible item).head = st.head := by
  unfold State.receive
  split
  · exact ⟨rfl, rfl, rfl⟩
  · exact ⟨rfl, rfl, rfl⟩
  · split
    · exact ⟨rfl, rfl, rfl⟩
    · exact ⟨write_work visible st _, by rw [write_eq], by rw [write_eq]⟩

theorem nextPhase_work (more : Bool) (pages : Nat) :
    (nextPhase more pages).work < pages * (maxChangesLimit + 3) + 2 := by
  unfold nextPhase
  split
  · exact Nat.succ_pos _
  · split
    · show 1 < pages * (maxChangesLimit + 3) + 2
      omega
    · show (pages - 1 + 1) * (maxChangesLimit + 3) < _
      rw [Nat.sub_add_cancel (by omega)]
      omega

theorem readPage_work (st : State) {pages : Nat} (hp : st.phase = .reading pages) :
    (st.readPage pages).work < st.work := by
  have hlen := workspaceChanges_length_le st.head st.pruned st.cursor maxChangesLimit
  have hwork : st.work =
      (pages + 1) * (maxChangesLimit + 3) + st.channel.length + 2 * st.hub.length := by
    rw [State.work, hp]
    rfl
  have hpage : (pages + 1) * (maxChangesLimit + 3) =
      pages * (maxChangesLimit + 3) + (maxChangesLimit + 3) := Nat.succ_mul _ _
  unfold State.readPage
  dsimp only
  split
  · show 1 + st.channel.length + 2 * st.hub.length < st.work
    omega
  · show pages * (maxChangesLimit + 3) + _ + 2 + st.channel.length + 2 * st.hub.length < st.work
    omega

/-- **Progress.**  Unless it is settled, the stream can take a step of its own, and
there is less to do after it. -/
theorem Inv.progress (h : Inv visible st) (hle : st.cursor ≤ st.head) (hopen : ¬ st.Settled) :
    ∃ l st', (Sound st l ∧ l.own) ∧ DurableStream.step visible st l = some st' ∧
      st'.work < st.work ∧ st'.cursor ≤ st'.head := by
  have hwork : st.work = st.phase.work + st.channel.length + 2 * st.hub.length := rfl
  cases hp : st.phase with
  | opening =>
    refine ⟨.subscribe, st.subscribe, ⟨rfl, rfl⟩, if_pos hp, ?_, ?_⟩
    · rw [hp, Phase.work] at hwork
      unfold State.subscribe
      split
      · show (maxReplayPages + 1) * (maxChangesLimit + 3) + st.channel.length +
          2 * st.hub.length < st.work
        omega
      · show 0 + 1 + 2 * st.hub.length < st.work
        rw [hwork, maxChangesLimit]
        omega
    · unfold State.subscribe
      split <;> exact hle
  | reading pages =>
    refine ⟨.read, st.readPage pages, ⟨decide_eq_true hle, rfl⟩, ?_, readPage_work st hp, ?_⟩
    · simp [DurableStream.step, hp]
    · unfold State.readPage
      dsimp only
      split
      · show max st.cursor _ ≤ st.head
        rw [workspaceChanges_head, Nat.max_eq_right hle]
      · exact hle
  | writing records more pages =>
    rw [hp, Phase.work] at hwork
    cases records with
    | nil =>
      refine ⟨.replay, { st with phase := nextPhase more pages }, ⟨rfl, rfl⟩, ?_, ?_, hle⟩
      · simp [DurableStream.step, hp]
      · have hnext := nextPhase_work more pages
        show (nextPhase more pages).work + st.channel.length + 2 * st.hub.length < st.work
        omega
    | cons seq rest =>
      obtain ⟨hrecords, hupto, _⟩ := h.bounds.page _ _ _ hp
      obtain ⟨hseq, _⟩ := cons.inj hrecords
      rw [length_cons] at hupto hwork
      refine ⟨.replay, State.write visible
        { st with cursor := seq, phase := .writing rest more pages } seq, ⟨rfl, rfl⟩, ?_, ?_,
        ?_⟩
      · simp [DurableStream.step, hp]
      · rw [write_work]
        show pages * (maxChangesLimit + 3) + rest.length + 2 + st.channel.length +
          2 * st.hub.length < st.work
        omega
      · rw [write_eq]
        show seq ≤ st.head
        omega
  | marking =>
    refine ⟨.mark, { st.writeMarker with phase := .live }, ⟨rfl, rfl⟩, if_pos hp, ?_, hle⟩
    rw [hp, Phase.work] at hwork
    show 0 + st.channel.length + 2 * st.hub.length < st.work
    omega
  | ended => exact absurd (.inl hp) hopen
  | live =>
    cases hchannel : st.channel with
    | cons item rest =>
      obtain ⟨hless, hcursor, hhead⟩ :=
        receive_work visible ({ st with channel := rest } : State) item
      refine ⟨.receive, State.receive visible { st with channel := rest } item, ⟨rfl, rfl⟩,
        ?_, ?_, ?_⟩
      · simp [DurableStream.step, hp, hchannel]
      · rw [hless, hwork, hchannel, hp, length_cons]
        show 0 + rest.length + 2 * st.hub.length < _
        omega
      · rw [hcursor, hhead]
        exact hle
    | nil =>
      cases hhub : st.hub with
      | nil => exact absurd (.inr ⟨hp, hhub, hchannel⟩) hopen
      | cons item rest =>
        have hlive : ¬ st.phase = .opening := hp ▸ nofun
        have hlen := offer_length_le st.channel item []
        refine ⟨.deliver 0 [],
          { st with hub := rest, channel := offer st.channel item [] },
          ⟨by simp [Sound, hchannel], rfl⟩, ?_, ?_, hle⟩
        · simp [DurableStream.step, hhub, State.deliver, hlive]
        · rw [hwork, hhub, length_cons]
          rw [hp]
          show 0 + (offer st.channel item []).length + 2 * rest.length < _
          omega

theorem Inv.settles (h : Inv visible st) (hle : st.cursor ≤ st.head) :
    ∃ st', Reaches (DurableStream.step visible) (fun st l => Sound st l ∧ l.own) st st' ∧
      st'.Settled := by
  -- on the work that is left
  induction hn : st.work using Nat.strong_induction_on generalizing st with
  | _ n ih =>
    by_cases hsettled : st.Settled
    · exact ⟨st, Reaches.refl st, hsettled⟩
    · obtain ⟨l, next, hok, hstep, hless, hcursor⟩ := h.progress hle hsettled
      obtain ⟨last, hrun, hlast⟩ := ih next.work (hn ▸ hless) (h.step hok.1 hstep) hcursor rfl
      exact ⟨last, ((Reaches.refl st).snoc hok hstep).trans hrun, hlast⟩

end Runs

/-- **The stream.**  In every run from any cursor in which the replay reads with a
cursor up to the head, pushes carry their seq and no full channel is read while it is
emptied, the stream keeps its promise. -/
theorem durable_of_reaches (visible : Nat → Bool) (since : Int) {st : State}
    (hrun : Reaches (step visible) (fun st l => Sound st l) (State.start since) st) :
    Promise visible st := by
  have hinv : Inv visible st :=
    hrun.invariant (P := Inv visible) (fun _ _ _ h hok hstep => h.step hok hstep)
      (Inv.start visible since)
  exact ⟨hinv.once.nodup, fun _ hpos hbase hle hv => hinv.accounted hpos hbase hle hv,
    hinv.settles⟩

/-- A change that the replay writes and the hub pushes as well, and one that comes
after the replay: both are written once. -/
theorem durable_two_routes :
    ∃ st, Promise (fun _ => true) st ∧ st.written = [1, 2] ∧ st.pushed = [1, 2] ∧ st.Settled := by
  obtain ⟨st, hreach, hwritten, hpushed, hlive⟩ :
      ∃ st, Reaches (step fun _ => true) (fun st l => Sound st l) (State.start 0) st ∧
      (st.written = [1, 2] ∧ st.pushed = [1, 2] ∧
        st.phase = .live ∧ st.hub = [] ∧ st.channel = []) :=
    Run.exists_reaches [.subscribe, .commit, .push 1 true, .deliver 0 [], .read, .commit,
      .push 2 true, .deliver 0 [], .replay, .replay, .receive, .receive] (State.start 0) (by decide)
  exact ⟨st, durable_of_reaches _ 0 hreach, hwritten, hpushed, .inr hlive⟩

/-- A client resumes above the head: after its marker the first change is dropped as one that
was replayed. A change that is pushed without its seq is written by the replay and again by the
live loop. -/
theorem dropped_or_twice :
    (∃ st, Reaches (step fun _ => true) Run.Unrestricted (State.start 5) st ∧ st.Settled ∧
      st.marked = some 0 ∧ 1 ∈ st.pushed ∧ 1 ≤ st.head ∧ 1 ∉ st.written ∧
      ¬ Promise (fun _ => true) st) ∧
    ∃ st, Reaches (step fun _ => true) Run.Unrestricted (State.start 0) st ∧
      st.written = [1, 1] ∧ ¬ Promise (fun _ => true) st := by
  constructor
  · obtain ⟨st, hreach, hlive, hhub, hchannel, hmarked, hpushed, hhead, hwritten⟩ :
        ∃ st, Reaches (step fun _ => true) Run.Unrestricted (State.start 5) st ∧
        (st.phase = .live ∧ st.hub = [] ∧ st.channel = [] ∧ st.marked = some 0 ∧
          st.pushed = [1] ∧ st.head = 1 ∧ st.written = []) :=
      Run.exists_reaches [.subscribe, .read, .mark, .commit, .push 1 true, .deliver 0 [], .receive]
        (State.start 5) (by decide)
    refine ⟨st, hreach, .inr ⟨hlive, hhub, hchannel⟩, hmarked, hpushed ▸ mem_cons_self,
      hhead ▸ Nat.le_refl _, hwritten ▸ not_mem_nil, fun hpromise => ?_⟩
    have hbase : st.base < (1 : Nat) := by
      rw [State.base, hmarked]
      exact Int.zero_lt_one
    cases hpromise.accounted 1 Nat.one_pos hbase (hhead ▸ Nat.le_refl _) rfl with
    | written h => exact absurd (hwritten ▸ h) not_mem_nil
    | ahead h => rw [hlive] at h; cases h
    | marking h => rw [hlive] at h; cases h
    | unpushed h => exact h (hpushed ▸ mem_cons_self)
    | transit h => rw [State.transit, hhub, hchannel] at h; exact absurd h not_mem_nil
    | marker h => exact absurd (hchannel ▸ h) not_mem_nil
    | ended h => rw [hlive] at h; cases h
  · refine Run.exists_reaches_and [.subscribe, .commit, .push 1 false, .deliver 0 [], .read,
      .replay, .replay, .receive] (State.start 0) (by decide) fun st _ hwritten hpromise => ?_
    exact absurd (hwritten ▸ hpromise.once) (by decide)

end Flow.Ports.DurableStream
