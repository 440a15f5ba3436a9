import Mathlib.Data.List.Perm.Subperm
import Flow.Ports.DurableStream
import Flow.Verified.Keyset
import Flow.Verified.Slots

/-!
# The invariant of a durable stream

Two bounds carry the proof.  Below the cursor of the replay every visible change
was written by the replay, and nothing above it was, so the live loop writes a
change at most once.  Above the head at the subscription no change is lost on its
way: it is unpushed, on its way, written, or a marker follows it.  The replay ends
with a cursor that has reached that head, or with a marker.
-/

namespace Flow.Ports.DurableStream

open List Option Flow.Verified
open Run (Reaches)

theorem workspaceChanges_records {head pruned since limit : Nat}
    (h : (workspaceChanges head pruned since limit).resyncRequired = false) :
    let page := workspaceChanges head pruned since limit
    page.records = range' (since + 1) page.records.length ∧
      since + page.records.length ≤ head ∧
      (page.hasMore = false → since + page.records.length = head) := by
  unfold workspaceChanges at h ⊢
  split at h
  · cases h
  · rename_i hin
    rw [if_neg hin]
    simp only [Keyset.take_range', length_range', decide_eq_false_iff_not]
    exact ⟨trivial, by omega, fun hmore => by omega⟩

theorem workspaceChanges_length_le (head pruned since limit : Nat) :
    (workspaceChanges head pruned since limit).records.length ≤ limit := by
  unfold workspaceChanges
  split
  · exact Nat.zero_le _
  · exact length_take_le _ _

theorem workspaceChanges_head (head pruned since limit : Nat) :
    (workspaceChanges head pruned since limit).head = head := by
  unfold workspaceChanges
  split <;> rfl

/-! ## Deliveries -/

@[simp] theorem carried_append (items more : List Item) :
    carried (items ++ more) = carried items ++ carried more :=
  filterMap_append

@[simp] theorem carried_marker : carried [.marker] = [] := rfl

/-- What a delivery does: it changes only the hub and the channel, adds no change,
and loses one only for a marker, or before the subscription. -/
structure Delivers (st st' : State) : Prop where
  same : st' = { st with hub := st'.hub, channel := st'.channel }
  fewer : st'.transit.Subperm st.transit
  stamped : ∀ seq stamped, Item.event seq stamped ∈ st'.channel ++ st'.hub →
    Item.event seq stamped ∈ st.channel ++ st.hub
  marker : Item.marker ∈ st.channel → Item.marker ∈ st'.channel
  kept : st.phase ≠ .opening → ∀ seq ∈ st.transit, seq ∈ st'.transit ∨ Item.marker ∈ st'.channel

/-- An offer keeps what is in the channel, or ends with a marker. -/
theorem offer_spec (channel : List Item) (item : Item) (takes : List Bool) :
    (offer channel item takes = channel ++ [item]) ∨
      ∃ kept, kept.Sublist channel ∧ offer channel item takes = kept ++ [.marker] := by
  unfold offer
  split
  · exact .inl rfl
  · exact .inr ⟨_, Realtime.picked_sublist takes channel, rfl⟩

theorem deliver_delivers {st : State} {hub : List Item} {item : Item} (takes : List Bool)
    (hfewer : (carried (item :: hub)).Subperm (carried st.hub))
    (hstamped : ∀ seq stamped, Item.event seq stamped ∈ item :: hub →
      Item.event seq stamped ∈ st.hub)
    (hkept : item = .marker ∨ ∀ seq ∈ carried st.hub, seq ∈ carried (item :: hub)) :
    Delivers st (({ st with hub } : State).deliver item takes) := by
  have hrest : (carried hub).Subperm (carried st.hub) :=
    (((sublist_cons_self item hub).filterMap _).subperm).trans hfewer
  unfold State.deliver
  split
  · rename_i hopening
    refine ⟨rfl, (subperm_append_left _).mpr hrest, ?_, id, fun h => absurd hopening h⟩
    intro seq stamped h
    simp only [mem_append] at h ⊢
    exact h.imp_right fun h => hstamped seq stamped (mem_cons_of_mem _ h)
  · obtain hfull | ⟨kept, hsub, hfull⟩ := offer_spec st.channel item takes
    · have htransit : carried (st.channel ++ [item]) ++ carried hub =
          carried st.channel ++ carried (item :: hub) := by
        rw [carried_append, append_assoc, ← carried_append, singleton_append]
      refine ⟨rfl, ?_, ?_, ?_, fun _ seq hseq => ?_⟩
      · show (carried (offer st.channel item takes) ++ carried hub).Subperm _
        rw [hfull, htransit]
        exact (subperm_append_left _).mpr hfewer
      · intro seq stamped h
        rw [show (offer st.channel item takes) = _ from hfull] at h
        simp only [mem_append, mem_singleton] at h ⊢
        rcases h with (h | h) | h
        · exact .inl h
        · exact .inr (hstamped seq stamped (h ▸ mem_cons_self))
        · exact .inr (hstamped seq stamped (mem_cons_of_mem _ h))
      · intro h
        rw [hfull]
        exact mem_append_left _ h
      · show seq ∈ carried (offer st.channel item takes) ++ carried hub ∨ _ ∈ offer _ _ _
        rw [hfull, htransit]
        rcases hkept with rfl | hkept
        · exact .inr (mem_append_right _ mem_cons_self)
        · rcases mem_append.mp hseq with h | h
          · exact .inl (mem_append_left _ h)
          · exact .inl (mem_append_right _ (hkept seq h))
    · have hlast : Item.marker ∈ offer st.channel item takes := by
        rw [hfull]
        exact mem_append_right _ mem_cons_self
      refine ⟨rfl, ?_, ?_, fun _ => hlast, fun _ seq _ => .inr hlast⟩
      · show (carried (offer st.channel item takes) ++ carried hub).Subperm _
        rw [hfull, carried_append, carried_marker, append_nil]
        exact ((hsub.filterMap _).subperm).append hrest
      · intro seq stamped h
        rw [show (offer st.channel item takes) = _ from hfull] at h
        simp only [mem_append, mem_singleton, reduceCtorEq, or_false] at h ⊢
        exact h.imp (fun h => hsub.subset h)
          fun h => hstamped seq stamped (mem_cons_of_mem _ h)

def Label.delivery : Label → Bool
  | .deliver _ _ => true
  | .answer _ _ => true
  | .resync _ => true
  | .signal _ => true
  | _ => false

theorem delivers_of_step {visible : Nat → Bool} {st st' : State} {l : Label}
    (hl : l.delivery) (h : step visible st l = some st') : Delivers st st' := by
  cases l with
  | deliver index takes =>
    obtain ⟨item, hitem, rfl⟩ := Option.map_eq_some_iff.mp h
    obtain ⟨hlt, rfl⟩ := List.getElem?_eq_some_iff.mp hitem
    have hperm := List.getElem_cons_eraseIdx_perm hlt
    exact deliver_delivers takes (hperm.filterMap _).subperm
      (fun seq stamped h => hperm.subset h)
      (.inr fun seq h => (hperm.filterMap _).symm.subset h)
  | answer index takes =>
    obtain ⟨item, hitem, rfl⟩ := map_eq_some_iff.mp h
    have hsub : (st.hub.eraseIdx index).Sublist st.hub := eraseIdx_sublist _ _
    refine deliver_delivers takes (hsub.filterMap _).subperm (fun seq stamped h => ?_) (.inl rfl)
    exact hsub.subset ((mem_cons.mp h).resolve_left nofun)
  | resync takes =>
    obtain rfl := some.inj h
    exact deliver_delivers takes (Subperm.refl _)
      (fun seq stamped h => (mem_cons.mp h).resolve_left nofun) (.inl rfl)
  | signal takes =>
    obtain rfl := some.inj h
    exact deliver_delivers takes (Subperm.refl _)
      (fun seq stamped h => (mem_cons.mp h).resolve_left nofun) (.inr fun _ => id)
  | _ => cases hl

inductive Tracked (visible : Nat → Bool) (st : State) (seq : Nat) : Prop where
  | unpushed (h : seq ∉ st.pushed)
  | transit (h : seq ∈ st.transit)
  | written (h : seq ∈ st.written)
  | hidden (h : visible seq = false)
  /-- The live loop has dropped it. -/
  | replayed (h : st.phase = .live) (hc : seq ≤ st.cursor)
  | marker (h : Item.marker ∈ st.channel)
  | marked (head : Nat) (h : st.marked = some head) (hle : seq ≤ head)

structure Bounds (st : State) : Prop where
  pushed : ∀ seq ∈ st.pushed, 0 < seq ∧ seq ≤ st.head
  stamped : ∀ seq stamped, Item.event seq stamped ∈ st.channel ++ st.hub → stamped = true
  transit_pushed : ∀ seq ∈ st.transit, seq ∈ st.pushed
  transit_nodup : st.transit.Nodup
  joined_le : st.joined ≤ st.head
  negative : st.durable = false →
    st.cursor = 0 ∧ (st.phase = .opening ∨ st.phase = .live ∨ st.phase = .ended)
  page : ∀ records more pages, st.phase = .writing records more pages →
    records = range' (st.cursor + 1) records.length ∧
      st.cursor + records.length ≤ st.head ∧
      (more = false → st.joined ≤ st.cursor + records.length)
  cursor_le : st.phase = .marking ∨ st.phase = .live → st.cursor ≤ st.head

/-- Nothing is written twice: before the live loop only changes up to the cursor were written,
and a written change above it is not on its way. -/
structure Once (st : State) : Prop where
  nodup : st.written.Nodup
  replayed : st.phase ≠ .live → st.phase ≠ .ended → ∀ seq ∈ st.written, seq ≤ st.cursor
  above : ∀ seq ∈ st.written, st.cursor < seq → seq ∈ st.pushed ∧ seq ∉ st.transit

structure Complete (visible : Nat → Bool) (st : State) : Prop where
  replayed : st.marked = none → st.phase.replaying ∨ st.phase = .live →
    ∀ seq : Nat, 0 < seq → st.since < seq → seq ≤ st.cursor → visible seq → seq ∈ st.written
  reached : st.phase = .live → st.marked = none →
    st.joined ≤ st.cursor ∨ Item.marker ∈ st.channel
  tracked : st.phase ≠ .opening → st.phase ≠ .ended →
    ∀ seq, st.joined < seq → seq ≤ st.head → Tracked visible st seq
  marked_le : ∀ head, st.marked = some head → st.cursor ≤ head ∧ st.joined ≤ head
  marked_live : st.marked ≠ none → st.phase = .live ∨ st.phase = .ended

structure Inv (visible : Nat → Bool) (st : State) : Prop where
  bounds : Bounds st
  once : Once st
  complete : Complete visible st

/-! ## Steps of the log and of the hub -/

section Preserved

variable {visible : Nat → Bool} {st st' : State}

variable {pages seq : Nat} {rest : List Item} {more : Bool} {item : Item}

theorem Tracked.transfer (h : Tracked visible st seq) (hpushed : seq ∈ st'.pushed → seq ∈ st.pushed)
    (htransit : seq ∈ st.transit → Tracked visible st' seq)
    (hwritten : seq ∈ st.written → seq ∈ st'.written)
    (hlive : st.phase = .live → st'.phase = .live ∧ st.cursor = st'.cursor)
    (hmarker : Item.marker ∈ st.channel → Tracked visible st' seq)
    (hmarked : st.marked = st'.marked) : Tracked visible st' seq := by
  cases h with
  | unpushed h => exact .unpushed fun hmem => h (hpushed hmem)
  | transit h => exact htransit h
  | written h => exact .written (hwritten h)
  | hidden h => exact .hidden h
  | replayed h hc => exact .replayed (hlive h).1 ((hlive h).2 ▸ hc)
  | marker h => exact hmarker h
  | marked head h hle => exact .marked head (hmarked ▸ h) hle

theorem Inv.commit (h : Inv visible st) : Inv visible { st with head := st.head + 1 } := by
  obtain ⟨hb, ho, hc⟩ := h
  refine ⟨?_, { ho with }, ?_⟩
  · exact
      { hb with
        pushed := fun seq hs => ⟨(hb.pushed seq hs).1, Nat.le_succ_of_le (hb.pushed seq hs).2⟩
        joined_le := Nat.le_succ_of_le hb.joined_le
        page := fun records more pages hp =>
          (hb.page records more pages hp).imp_right (And.imp_left Nat.le_succ_of_le)
        cursor_le := fun hp => Nat.le_succ_of_le (hb.cursor_le hp) }
  · refine { hc with tracked := fun h1 h2 seq hj hle => ?_ }
    rcases Nat.lt_or_eq_of_le hle with hlt | rfl
    · exact (hc.tracked h1 h2 seq hj (Nat.le_of_lt_succ hlt)).transfer id
        (fun h => .transit h) id (fun h => ⟨h, rfl⟩) (fun h => .marker h) rfl
    · -- the new change has not been pushed: pushed ones are numbered
      refine .unpushed fun hmem => ?_
      have hold : st.head + 1 ≤ st.head := (hb.pushed _ hmem).2
      omega

theorem Inv.prune (h : Inv visible st) (upto : Nat) :
    Inv visible { st with pruned := max st.pruned upto } := by
  obtain ⟨hb, ho, hc⟩ := h
  refine ⟨{ hb with }, { ho with }, { hc with tracked := fun h1 h2 seq hj hle => ?_ }⟩
  exact (hc.tracked h1 h2 seq hj hle).transfer id (fun h => .transit h) id
    (fun h => ⟨h, rfl⟩) (fun h => .marker h) rfl

theorem Inv.push (h : Inv visible st) (hpos : 0 < seq) (hnew : seq ∉ st.pushed)
    (hle : seq ≤ st.head) :
    Inv visible { st with pushed := st.pushed ++ [seq], hub := st.hub ++ [.event seq true] } := by
  obtain ⟨hb, ho, hc⟩ := h
  have htransit : State.transit { st with
      pushed := st.pushed ++ [seq], hub := st.hub ++ [.event seq true] } = st.transit ++ [seq] := by
    show carried st.channel ++ carried (st.hub ++ [.event seq true]) = _
    rw [carried_append, ← append_assoc]
    rfl
  have hout : seq ∉ st.transit := fun hmem => hnew (hb.transit_pushed seq hmem)
  refine ⟨?_, ?_, ?_⟩
  · refine ⟨Slots.forall_push hb.pushed ⟨hpos, hle⟩, fun s stamped hs => ?_, fun s hs => ?_, ?_,
      hb.joined_le, hb.negative, hb.page, hb.cursor_le⟩
    · rw [← append_assoc, mem_append] at hs
      rcases hs with hs | hs
      · exact hb.stamped s stamped hs
      · exact (Item.event.inj (mem_singleton.mp hs)).2
    · rw [htransit] at hs
      rcases mem_append.mp hs with hs | hs
      · exact mem_append_left _ (hb.transit_pushed s hs)
      · exact mem_append_right _ hs
    · rw [htransit, ← concat_eq_append]
      exact hb.transit_nodup.concat hout
  · refine ⟨ho.nodup, ho.replayed, fun s hs hlt => ?_⟩
    obtain ⟨hpushed, hgone⟩ := ho.above s hs hlt
    refine ⟨mem_append_left _ hpushed, fun hmem => ?_⟩
    rw [htransit] at hmem
    rcases mem_append.mp hmem with hmem | hmem
    · exact hgone hmem
    · exact hnew (mem_singleton.mp hmem ▸ hpushed)
  · refine { hc with tracked := fun h1 h2 s hj hsle => ?_ }
    by_cases hs : s = seq
    · refine .transit ?_
      rw [htransit, hs]
      exact mem_append_right _ mem_cons_self
    · refine (hc.tracked h1 h2 s hj hsle).transfer (fun hmem => ?_) (fun hmem => .transit ?_) id
        (fun h => ⟨h, rfl⟩) (fun h => .marker h) rfl
      · exact (mem_append.mp hmem).resolve_right fun h => hs (mem_singleton.mp h)
      · rw [htransit]
        exact mem_append_left _ hmem

theorem Bounds.fewer {hub channel : List Item} (hb : Bounds st)
    (hstamped : ∀ seq stamped, Item.event seq stamped ∈ channel ++ hub →
      Item.event seq stamped ∈ st.channel ++ st.hub)
    (hfewer : (State.transit { st with hub, channel }).Subperm st.transit) :
    Bounds { st with hub, channel } := by
  obtain ⟨rest, hperm, hsub⟩ := hfewer
  exact
    { hb with
      stamped := fun s stamped hs => hb.stamped s stamped (hstamped s stamped hs)
      transit_pushed := fun s hs => hb.transit_pushed s (hsub.subset (hperm.symm.subset hs))
      transit_nodup := hperm.nodup_iff.mp (hsub.nodup hb.transit_nodup) }

theorem Once.fewer {hub channel : List Item} (ho : Once st)
    (hfewer : (State.transit { st with hub, channel }).Subperm st.transit) :
    Once { st with hub, channel } := by
  refine ⟨ho.nodup, ho.replayed, fun s hs hlt => ?_⟩
  obtain ⟨hpushed, hgone⟩ := ho.above s hs hlt
  exact ⟨hpushed, fun hmem => hgone (hfewer.subset hmem)⟩

theorem Inv.delivers (h : Inv visible st) (hd : Delivers st st') : Inv visible st' := by
  obtain ⟨hsame, hfewer, hstamped, hmarker, hkept⟩ := hd
  obtain ⟨hub, channel, rfl⟩ : ∃ hub channel, st' = { st with hub, channel } := ⟨_, _, hsame⟩
  obtain ⟨hb, ho, hc⟩ := h
  refine ⟨hb.fewer hstamped hfewer, ho.fewer hfewer, ?_⟩
  refine
    { hc with
      reached := fun hl hm => (hc.reached hl hm).imp_right hmarker
      tracked := fun h1 h2 s hj hle => ?_ }
  refine (hc.tracked h1 h2 s hj hle).transfer id (fun hmem => ?_) id (fun h => ⟨h, rfl⟩)
    (fun h => .marker (hmarker h)) rfl
  exact (hkept h1 s hmem).elim (fun h => .transit h) fun h => .marker h

/-! ## Steps of the stream -/

theorem Complete.unmarked (hc : Complete visible st) (hlive : st.phase ≠ .live)
    (hended : st.phase ≠ .ended) : st.marked = none := by
  by_contra hm
  exact (hc.marked_live hm).elim hlive hended

theorem Inv.subscribe (h : Inv visible st) (hp : st.phase = .opening) :
    Inv visible st.subscribe := by
  obtain ⟨hb, ho, hc⟩ := h
  have hlive : st.phase ≠ .live := hp ▸ nofun
  have hended : st.phase ≠ .ended := hp ▸ nofun
  have hunmarked := hc.unmarked hlive hended
  have hreplayed := ho.replayed hlive hended
  unfold State.subscribe
  split
  · rename_i hdurable
    refine ⟨?_, ⟨ho.nodup, fun _ _ => hreplayed, ho.above⟩, ?_⟩
    · exact ⟨hb.pushed, hb.stamped, hb.transit_pushed, hb.transit_nodup, Nat.le_refl _,
        fun hn => absurd (hdurable.symm.trans hn) nofun, nofun, nofun⟩
    · refine ⟨fun hm _ => hc.replayed hm (.inl (by rw [hp]; rfl)), nofun,
        fun _ _ s hj hle => ?_, fun head hm => ?_, fun hm => absurd hunmarked hm⟩
      · exact absurd hle (Nat.not_le.mpr hj)
      · exact absurd (hunmarked.symm.trans hm) nofun
  · rename_i hdurable
    have hzero := (hb.negative (by simpa using hdurable)).1
    have htransit : State.transit { st with
        phase := .live, joined := st.head, channel := [.marker] } = carried st.hub := rfl
    have hsub : (carried st.hub).Sublist st.transit := sublist_append_right _ _
    refine ⟨?_, ⟨ho.nodup, nofun, fun s hs hlt => ?_⟩, ?_⟩
    · refine ⟨hb.pushed, fun s stamped hs => ?_, fun s hs => ?_, ?_, Nat.le_refl _,
        fun _ => ⟨hzero, .inr (.inl rfl)⟩, nofun, fun _ => hzero ▸ Nat.zero_le _⟩
      · have hs : Item.event s stamped ∈ st.hub := (mem_cons.mp hs).resolve_left nofun
        exact hb.stamped s stamped (mem_append_right _ hs)
      · exact hb.transit_pushed s (hsub.subset (htransit ▸ hs))
      · exact hsub.nodup hb.transit_nodup
    · exact absurd (hreplayed s hs) (Nat.not_le.mpr hlt)
    · refine ⟨fun hm _ => hc.replayed hm (.inl (by rw [hp]; rfl)),
        fun _ _ => .inr mem_cons_self, fun _ _ s _ _ => .marker mem_cons_self,
        fun head hm => ?_, fun hm => absurd hunmarked hm⟩
      exact absurd (hunmarked.symm.trans hm) nofun

/-- A replay goes on, to another place of it or to the live loop: what it has written by
then is up to its cursor. -/
theorem Inv.goOn (h : Inv visible st) {phase : Phase} (cursor : Nat) {out : List Written}
    (hopening : st.phase ≠ .opening) (hlive : st.phase ≠ .live) (hended : st.phase ≠ .ended)
    (hkept : ∀ s ∈ st.written, s ∈ State.written { st with out })
    (hnodup : (State.written { st with out }).Nodup)
    (hbelow : ∀ s ∈ State.written { st with out }, s ≤ cursor)
    (hpage : ∀ records more pages, phase = .writing records more pages →
      records = range' (cursor + 1) records.length ∧ cursor + records.length ≤ st.head ∧
        (more = false → st.joined ≤ cursor + records.length))
    (hcursor : phase = .marking ∨ phase = .live → cursor ≤ st.head)
    (hreplayed : phase.replaying ∨ phase = .live → ∀ s : Nat, 0 < s → st.since < s → s ≤ cursor →
      visible s → s ∈ State.written { st with out })
    (hreached : phase = .live → st.joined ≤ cursor) :
    Inv visible { st with phase, cursor, out } := by
  obtain ⟨hb, ho, hc⟩ := h
  have hunmarked := hc.unmarked hlive hended
  refine ⟨?_, ⟨hnodup, fun _ _ => hbelow, fun s hs hlt => ?_⟩, ?_⟩
  · refine ⟨hb.pushed, hb.stamped, hb.transit_pushed, hb.transit_nodup, hb.joined_le, ?_, hpage,
      hcursor⟩
    -- a stream without a replay is never in one
    exact fun hn => absurd (hb.negative hn).2 (by simp [hopening, hlive, hended])
  · exact absurd (hbelow s hs) (Nat.not_le.mpr hlt)
  · refine ⟨fun _ => hreplayed, fun hl _ => .inl (hreached hl), fun _ _ s hj hle => ?_,
      fun _ hm => absurd (hunmarked.symm.trans hm) nofun, fun hm => absurd hunmarked hm⟩
    exact (hc.tracked hopening hended s hj hle).transfer id (fun h => .transit h) (hkept s)
      (fun h => absurd h hlive) (fun h => .marker h) rfl

theorem Inv.readPage (h : Inv visible st) (hp : st.phase = .reading pages)
    (hle : st.cursor ≤ st.head) : Inv visible (st.readPage pages) := by
  have hlive : st.phase ≠ .live := hp ▸ nofun
  have hended : st.phase ≠ .ended := hp ▸ nofun
  have hbelow := h.once.replayed hlive hended
  unfold State.readPage
  dsimp only
  split
  · -- the marker is due: the cursor is the head from here on
    rw [workspaceChanges_head, Nat.max_eq_right hle]
    exact h.goOn st.head (hp ▸ nofun) hlive hended (fun _ => id) h.once.nodup
      (fun s hs => Nat.le_trans (hbelow s hs) hle) nofun (fun _ => Nat.le_refl _)
      (fun h => absurd h nofun) nofun
  · rename_i hresync
    obtain ⟨hrecords, hupto, hmore⟩ :=
      workspaceChanges_records (Bool.not_eq_true _ ▸ hresync)
    refine h.goOn st.cursor (hp ▸ nofun) hlive hended (fun _ => id) h.once.nodup hbelow ?_ nofun
      ?_ nofun
    · rintro _ _ _ ⟨⟩
      exact ⟨hrecords, hupto, fun hlast => (hmore hlast).symm ▸ h.bounds.joined_le⟩
    · exact fun _ => h.complete.replayed (h.complete.unmarked hlive hended)
        (.inl (by rw [hp]; rfl))

theorem written_write (visible : Nat → Bool) (st : State) (seq : Nat) :
    (st.write visible seq).written =
      if visible seq then st.written ++ [seq] else st.written := by
  unfold State.write
  split
  · exact filterMap_append
  · rfl

theorem written_writeMarker (st : State) : st.writeMarker.written = st.written := by
  show (st.out ++ [Written.marker]).filterMap Written.seq? = _
  rw [filterMap_append]
  exact append_nil _

theorem write_eq (visible : Nat → Bool) (st : State) (seq : Nat) :
    st.write visible seq = { st with out := (st.write visible seq).out } := by
  unfold State.write
  split <;> rfl

theorem mem_written_write {s : Nat} :
    s ∈ (st.write visible seq).written ↔ s ∈ st.written ∨ s = seq ∧ visible seq := by
  rw [written_write]
  split
  · rename_i hv
    rw [mem_append, mem_singleton, hv, eq_self, and_true]
  · rename_i hv
    exact ⟨.inl, fun h => h.resolve_right fun h => hv h.2⟩

theorem nodup_written_write (h : st.written.Nodup) (hnew : seq ∉ st.written) :
    (st.write visible seq).written.Nodup := by
  rw [written_write]
  split
  · rw [← concat_eq_append]
    exact h.concat hnew
  · exact h

theorem Inv.record (h : Inv visible st) {rest : List Nat}
    (hp : st.phase = .writing (seq :: rest) more pages) :
    Inv visible (({ st with cursor := seq, phase := .writing rest more pages } : State).write
      visible seq) := by
  have hlive : st.phase ≠ .live := hp ▸ nofun
  have hended : st.phase ≠ .ended := hp ▸ nofun
  have hreplayed := h.once.replayed hlive hended
  obtain ⟨hrecords, hupto, hjoined⟩ := h.bounds.page _ _ _ hp
  obtain ⟨rfl, hrest⟩ := cons.inj hrecords
  rw [length_cons] at hupto hjoined
  set next : State := { st with cursor := st.cursor + 1, phase := .writing rest more pages }
  have hmem : ∀ s, s ∈ (next.write visible (st.cursor + 1)).written ↔
      s ∈ st.written ∨ s = st.cursor + 1 ∧ visible (st.cursor + 1) = true :=
    fun s => mem_written_write
  rw [write_eq]
  refine h.goOn (st.cursor + 1) (hp ▸ nofun) hlive hended
    (fun s hs => (hmem s).mpr (.inl hs)) ?_ ?_ ?_ nofun ?_ nofun
  · refine nodup_written_write h.once.nodup fun hs => ?_
    have := hreplayed _ hs
    omega
  · intro s hs
    rcases (hmem s).mp hs with hs | ⟨rfl, _⟩
    · exact Nat.le_succ_of_le (hreplayed s hs)
    · exact Nat.le_refl _
  · rintro _ _ _ ⟨⟩
    exact ⟨hrest, by omega, fun hm => by have := hjoined hm; omega⟩
  · intro _ s hpos hsince hle hv
    apply (hmem s).mpr
    rcases Nat.lt_or_eq_of_le hle with hlt | rfl
    · exact .inl (h.complete.replayed (h.complete.unmarked hlive hended)
        (.inl (by rw [hp]; rfl)) s hpos hsince (Nat.le_of_lt_succ hlt) hv)
    · exact .inr ⟨rfl, hv⟩

theorem Inv.pageEnd (h : Inv visible st) (hp : st.phase = .writing [] more pages) :
    Inv visible { st with phase := nextPhase more pages } := by
  have hlive : st.phase ≠ .live := hp ▸ nofun
  have hended : st.phase ≠ .ended := hp ▸ nofun
  obtain ⟨_, hupto, hjoined⟩ := h.bounds.page _ _ _ hp
  refine h.goOn st.cursor (hp ▸ nofun) hlive hended (fun _ => id) h.once.nodup
    (h.once.replayed hlive hended) ?_ (fun _ => hupto) (fun _ => ?_) ?_
  · intro records more' pages' hphase
    unfold nextPhase at hphase
    split at hphase
    · cases hphase
    · split at hphase <;> cases hphase
  · exact h.complete.replayed (h.complete.unmarked hlive hended) (.inl (by rw [hp]; rfl))
  · unfold nextPhase
    cases more with
    | false => exact fun _ => hjoined rfl
    | true =>
      rw [if_neg nofun]
      split <;> nofun

theorem Inv.mark (h : Inv visible st) (hp : st.phase = .marking) :
    Inv visible { st.writeMarker with phase := .live } := by
  obtain ⟨hb, ho, hc⟩ := h
  have hwritten : State.written { st.writeMarker with phase := .live } = st.written :=
    written_writeMarker st
  refine ⟨?_, ⟨hwritten ▸ ho.nodup, nofun, hwritten ▸ ho.above⟩, ?_⟩
  · exact ⟨hb.pushed, hb.stamped, hb.transit_pushed, hb.transit_nodup, hb.joined_le,
      fun hn => absurd (hb.negative hn).2 (by simp [hp]), nofun, fun _ => hb.cursor_le (.inl hp)⟩
  · refine ⟨nofun, nofun, fun _ _ s _ hle => .marked st.head rfl hle, fun head hm => ?_,
      fun _ => .inl rfl⟩
    obtain rfl := some.inj hm
    exact ⟨hb.cursor_le (.inl hp), hb.joined_le⟩

theorem Inv.stop (h : Inv visible st) : Inv visible { st with phase := .ended } := by
  obtain ⟨hb, ho, hc⟩ := h
  exact ⟨⟨hb.pushed, hb.stamped, hb.transit_pushed, hb.transit_nodup, hb.joined_le,
      fun hn => ⟨(hb.negative hn).1, .inr (.inr rfl)⟩, nofun, fun h => h.elim nofun nofun⟩,
    ⟨ho.nodup, fun _ h => absurd rfl h, ho.above⟩,
    ⟨fun _ h => h.elim nofun nofun, nofun, fun _ h => absurd rfl h, hc.marked_le,
      fun _ => .inr rfl⟩⟩

theorem take_fewer (hchannel : st.channel = item :: rest) (hb : Bounds st) (ho : Once st) :
    Bounds { st with channel := rest } ∧ Once { st with channel := rest } := by
  have hsub : rest.Sublist st.channel := hchannel ▸ sublist_cons_self item rest
  have htransit : (State.transit { st with channel := rest }).Sublist st.transit :=
    (hsub.filterMap _).append_right _
  exact ⟨hb.fewer (fun _ _ hs => (hsub.append_right _).subset hs) htransit.subperm,
    ho.fewer htransit.subperm⟩

theorem Inv.receiveMarker (h : Inv visible st) (hp : st.phase = .live)
    (hchannel : st.channel = .marker :: rest) :
    Inv visible ({ st with channel := rest } : State).writeMarker := by
  obtain ⟨hb, ho, hc⟩ := h
  have hwritten := written_writeMarker { st with channel := rest }
  have htransit : State.transit { st with channel := rest } = st.transit := by
    show carried rest ++ _ = carried st.channel ++ _
    rw [hchannel]
    rfl
  have hb' := (take_fewer hchannel hb ho).1
  refine ⟨{ hb' with }, ?_, ?_⟩
  · refine ⟨hwritten ▸ ho.nodup, fun h => absurd hp h, fun s hs hlt => ?_⟩
    obtain ⟨hpushed, hgone⟩ := ho.above s (hwritten ▸ hs) hlt
    exact ⟨hpushed, fun hmem => hgone (htransit ▸ hmem)⟩
  · refine ⟨nofun, nofun, fun _ _ s _ hle => .marked st.head rfl hle, fun head hm => ?_,
      fun _ => .inl hp⟩
    obtain rfl := some.inj hm
    exact ⟨hb.cursor_le (.inr hp), hb.joined_le⟩

theorem Inv.receiveOther (h : Inv visible st) (hchannel : st.channel = item :: rest)
    (hitem : item ≠ .marker) {out : List Written} (honce : Once { st with channel := rest, out })
    (hkept : ∀ seq ∈ st.written, seq ∈ State.written { st with channel := rest, out })
    (htaken : ∀ seq, item.seq? = some seq → Tracked visible { st with channel := rest, out } seq) :
    Inv visible { st with channel := rest, out } := by
  obtain ⟨hb, ho, hc⟩ := h
  have hmarker : Item.marker ∈ st.channel → Item.marker ∈ rest := fun hm =>
    (mem_cons.mp (hchannel ▸ hm)).resolve_left hitem.symm
  have hb' := (take_fewer hchannel hb ho).1
  refine ⟨{ hb' with }, honce, ?_⟩
  refine ⟨fun hm h s hpos hsince hle hv => hkept s (hc.replayed hm h s hpos hsince hle hv),
    fun hl hm => (hc.reached hl hm).imp_right hmarker, fun h1 h2 s hj hle => ?_, hc.marked_le,
    hc.marked_live⟩
  refine (hc.tracked h1 h2 s hj hle).transfer id (fun hmem => ?_) (hkept s) (fun h => ⟨h, rfl⟩)
    (fun hm => .marker (hmarker hm)) rfl
  -- what was on its way is the item or still there
  rcases mem_append.mp hmem with hmem | hmem
  · obtain ⟨taken, hmem, hseq⟩ := mem_filterMap.mp hmem
    rcases mem_cons.mp (hchannel ▸ hmem) with rfl | hmem
    · exact htaken s hseq
    · exact .transit (mem_append_left _ (mem_filterMap.mpr ⟨taken, hmem, hseq⟩))
  · exact .transit (mem_append_right _ hmem)

theorem Inv.receiveEvent (h : Inv visible st) (hp : st.phase = .live) {stamped : Bool}
    (hchannel : st.channel = .event seq stamped :: rest) :
    Inv visible (({ st with channel := rest } : State).receive visible (.event seq stamped)) := by
  obtain rfl : stamped = true := h.bounds.stamped seq stamped
    (mem_append_left _ (hchannel ▸ mem_cons_self))
  have htransit : st.transit = seq :: State.transit { st with channel := rest } := by
    show carried st.channel ++ _ = _
    rw [hchannel]
    rfl
  have hmem : seq ∈ st.transit := htransit ▸ mem_cons_self
  have hpushed := h.bounds.transit_pushed seq hmem
  have hgone : seq ∉ State.transit { st with channel := rest } :=
    (nodup_cons.mp (htransit ▸ h.bounds.transit_nodup)).1
  have hother : Item.event seq true ≠ .marker := nofun
  set next : State := { st with channel := rest }
  have honce : Once next := (take_fewer hchannel h.bounds h.once).2
  show Inv visible (if next.durable && true && decide (seq ≤ next.cursor) then next
    else next.write visible seq)
  split
  · -- the replay has written it
    rename_i hdrop
    have hle : seq ≤ st.cursor := by
      simp only [Bool.and_eq_true, decide_eq_true_eq] at hdrop
      exact hdrop.2
    refine h.receiveOther hchannel hother honce (fun _ => id) fun s hs => ?_
    obtain rfl := some.inj hs
    exact .replayed hp hle
  · rename_i hkeep
    have habove : st.cursor < seq := by
      cases hd : st.durable with
      | false => exact (h.bounds.negative hd).1 ▸ (h.bounds.pushed seq hpushed).1
      | true =>
        rw [show next.durable = true from hd] at hkeep
        simp only [Bool.true_and, decide_eq_true_eq] at hkeep
        exact Nat.not_le.mp hkeep
    have hnew : seq ∉ next.written := fun hs => (h.once.above seq hs habove).2 hmem
    rw [write_eq]
    refine h.receiveOther hchannel hother ⟨nodup_written_write honce.nodup hnew,
      fun hl => absurd hp hl, fun s hs hlt => ?_⟩
      (fun s hs => mem_written_write.mpr (.inl hs)) fun s hs => ?_
    · rcases mem_written_write.mp hs with hs | ⟨rfl, _⟩
      · exact honce.above s hs hlt
      · exact ⟨hpushed, hgone⟩
    · obtain rfl := some.inj hs
      cases hv : visible seq with
      | true => exact .written (mem_written_write.mpr (.inr ⟨rfl, hv⟩))
      | false => exact .hidden hv

theorem Inv.receive (h : Inv visible st) (hp : st.phase = .live)
    (hchannel : st.channel = item :: rest) :
    Inv visible (({ st with channel := rest } : State).receive visible item) := by
  cases item with
  | marker => exact h.receiveMarker hp hchannel
  | signal =>
    have honce := (take_fewer hchannel h.bounds h.once).2
    exact h.receiveOther hchannel nofun honce (fun _ => id) nofun
  | event seq stamped => exact h.receiveEvent hp hchannel

end Preserved

end Flow.Ports.DurableStream
