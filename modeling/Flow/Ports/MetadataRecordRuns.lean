import Flow.Ports.MetadataRecordWrite

/-!
# The writers of a metadata record, and its counters

Any number of writers of one record, in any order: each read some committed
version through a load, changed it, and under the row lock writes what
`rebaseMetadataRecordWrite` returns, or fails.  The state is the record
before the first writer and the commits since, so that a run is exactly an
order in which the lock was taken.

A counter is measured as `load` presents it.  A writer that creates the
record and finds its own record already stored adds nothing: both writers
created the one record.
-/

namespace Flow.Ports.MetadataRecord

open Flow.Ports.MetadataMerge Flow.Verified Keyed Run

/-! ## The writers of one record -/

/-- A committed write: what the writer read, what it made of it, the row it
found and the record it wrote. -/
structure Commit where
  base : Option Record
  ours : Record
  row : Option Record
  written : Record

structure Writers where
  initial : Option Record
  commits : List Commit

def Writers.versions (s : Writers) : List (Option Record) :=
  s.initial :: s.commits.map fun c => some c.written

def Writers.row (s : Writers) : Option Record :=
  match s.commits.getLast? with
  | some c => some c.written
  | none => s.initial

/-- A writer that read version `version` and changed it to `ours` takes the
lock. -/
structure Write where
  version : Nat
  ours : Record

/-- One writer under the lock; a writer that fails or finds the record gone
leaves it as it was. -/
def step (load : Record → Record) (s : Writers) (w : Write) : Option Writers :=
  match s.versions[w.version]? with
  | none => none
  | some version =>
    let base := version.map load
    match rebaseMetadataRecordWrite load base w.ours s.row with
    | .write written =>
      some { s with commits := s.commits ++ [⟨base, w.ours, s.row, written⟩] }
    | .skip => some s
    | .conflict => some s

theorem Writers.row_mem (s : Writers) : s.row ∈ s.versions := by
  unfold Writers.row Writers.versions
  cases hlast : s.commits.getLast? with
  | none => exact List.mem_cons_self
  | some c =>
    refine List.mem_cons_of_mem _ (List.mem_map.2 ⟨c, ?_, rfl⟩)
    exact List.mem_of_getLast? hlast

@[simp] theorem Writers.row_append (s : Writers) (c : Commit) :
    Writers.row { s with commits := s.commits ++ [c] } = some c.written := by
  simp [Writers.row]

variable {s : Writers} {c : Commit} {v : Option Json} {load : Record → Record} {name : String}
  {floor : Int}

theorem Writers.mem_versions_append {v : Option Record} :
    v ∈ Writers.versions { s with commits := s.commits ++ [c] } ↔
      v ∈ s.versions ∨ v = some c.written := by
  simp [Writers.versions, or_assoc]

/-- **What a step can do**: nothing, or append one commit of a writer that
read a committed version. -/
theorem step_cases {s' : Writers} {w : Write} (h : step load s w = some s') :
    s' = s ∨ ∃ version ∈ s.versions, ∃ written,
      Writes load (version.map load) w.ours s.row written ∧
      s' = { s with
        commits := s.commits ++ [⟨version.map load, w.ours, s.row, written⟩] } := by
  revert h
  fun_cases step load s w with
  | case1 => exact nofun
  | case2 version hversion base written hrebase =>
    rintro ⟨⟩
    exact .inr ⟨version, List.mem_of_getElem? hversion, written, writes_of_rebase hrebase, rfl⟩
  | case3 | case4 =>
    rintro ⟨⟩
    exact .inl rfl

theorem Writers.of_fresh (h : s.commits = []) : s.versions = [s.initial] ∧ s.row = s.initial := by
  simp [Writers.versions, Writers.row, h]

theorem commits_induction {P : Writers → Prop} {Q : Commit → Prop} {s₀ : Writers}
    (hrun : Reaches (step load) Unrestricted s₀ s) (hall : ∀ c ∈ s.commits, Q c) (hstart : P s₀)
    (hcommit : ∀ s version ours written, version ∈ s.versions →
      Writes load (version.map load) ours s.row written →
      Q ⟨version.map load, ours, s.row, written⟩ → P s →
      P { s with commits := s.commits ++ [⟨version.map load, ours, s.row, written⟩] }) : P s := by
  have hinv : (∀ c ∈ s.commits, Q c) → P s := by
    refine Reaches.invariant (P := fun s => (∀ c ∈ s.commits, Q c) → P s) ?_ hrun fun _ => hstart
    intro s w s' ih _ hstep hall
    rcases step_cases hstep with rfl | ⟨version, hversion, written, hwrite, rfl⟩
    · exact ih hall
    · exact hcommit s version w.ours written hversion hwrite
        (hall _ (List.mem_append_right _ (List.mem_singleton.2 rfl)))
        (ih fun c hc => hall c (List.mem_append_left _ hc))
  exact hinv hall

/-! ## Counters -/

/-- The value of a counter as a load presents it; a missing record counts
zero. -/
def presented (load : Record → Record) (name : String) : Option Record → Option Int
  | none => some 0
  | some record => count ((load record).lookup name)

/-- A load presents a counter as stored, or as `floor` where it is less. -/
def LoadsCounter (load : Record → Record) (name : String) (floor : Int) : Prop :=
  ∀ record value, count (record.lookup name) = some value →
    count ((load record).lookup name) = some (max floor value)

def Commit.before (name : String) (c : Commit) : Option Int :=
  match c.base with
  | none => some 0
  | some base => count (base.lookup name)

def Commit.mine (name : String) (c : Commit) : Option Int :=
  count (c.ours.lookup name)

/-- A writer that created the record and found it stored as it made it. -/
def Commit.foundOwn (c : Commit) : Bool :=
  match c.base, c.row with
  | none, some row => recordEqual row c.ours
  | _, _ => false

def Commit.increment (name : String) (c : Commit) : Int :=
  if c.foundOwn then 0
  else (c.mine name).getD 0 - (c.before name).getD 0

/-- The writer did not decrease the counter; one that created the record gave
it a value a load presents. -/
def Commit.Counts (name : String) (floor : Int) (c : Commit) : Prop :=
  ∃ before mine, c.before name = some before ∧ c.mine name = some mine ∧
    before ≤ mine ∧ (c.base = none → floor ≤ mine)

theorem count_cases {n : Int} (h : count v = some n) : emptyMember v ∧ n = 0 ∨
      ∃ number, v = some (.number number) ∧ number.parseInt = some n := by
  revert h
  fun_cases count v with
  | case1 _ hempty => exact fun h => .inl ⟨hempty, (Option.some.inj h).symm⟩
  | case2 number => exact fun h => .inr ⟨number, rfl, h⟩
  | case3 => exact nofun

theorem count_congr {w : Option Json} (h : jsonEqual v w) : count v = count w := by
  rcases jsonEqual_iff.1 h with rfl | ⟨hv, hw⟩
  · rfl
  · unfold count
    rw [if_pos hv, if_pos hw]

private theorem empty_of_count_of_fits {kind : JsonKind} {n : Int} (hcount : count v = some n)
    (hfits : FitsKind kind v) (hkind : kind ≠ .scalar) : emptyMember v := by
  rcases count_cases hcount with ⟨hempty, _⟩ | ⟨number, rfl, _⟩
  · exact hempty
  · rcases hfits with hkind' | habsent
    · exact absurd hkind'.symm hkind
    · cases habsent

variable {before mine : Int}

private theorem values_of_overflow {base ours loaded : Option Json}
    {their : Int} (hbase : count base = some before)
    (hours : count ours = some mine) (hloaded : count loaded = some their)
    (hpos : 0 ≤ before) (hover : maxInt64 < their + (mine - before))
    (hchanged : jsonEqual ours base = false) (hchanged' : jsonEqual loaded base = false) :
    mergeMetadataValues base ours loaded = none := by
  have hfit : ∀ {kind : JsonKind}, kind ≠ .scalar → ¬AllFit kind base ours loaded := by
    intro kind hkind hfit
    have hb := empty_of_count_of_fits hbase hfit.1 hkind
    have ho := empty_of_count_of_fits hours hfit.2.1 hkind
    rw [jsonEqual_iff.2 (Or.inr ⟨ho, hb⟩)] at hchanged
    cases hchanged
  rw [mergeMetadataValues_eq, valuesVia_of_changed _ hchanged hchanged',
    if_neg (hfit (by decide)), if_neg (hfit (by decide)), if_neg]
  rintro ⟨hsame, hnumber⟩
  have hequal : their = mine := by
    have := count_congr hsame
    rw [hloaded, hours, Option.some.injEq] at this
    exact this
  rcases count_cases hours with ⟨_, hzero⟩ | ⟨number, rfl, _⟩
  · unfold maxInt64 at hover
    omega
  · cases hnumber

/-- The merge of a counter without conflict: what is stored, when the writer added nothing, or
what the load presents plus the increment. -/
theorem mergeField_counter (hname : name ∈ additiveCounters) {base ours loaded : Option Json}
    {their : Int} (hbase : count base = some before) (hours : count ours = some mine)
    (hloaded : count loaded = some their) (hpos : 0 ≤ before) (hle : before ≤ mine)
    (hle' : before ≤ their) (hok : (mergeField name base ours loaded).2 = false) :
    ((mergeField name base ours loaded).1 = .keep ∧ mine = before) ∨
      ∃ value, (mergeField name base ours loaded).1 = setMember value ∧
        count value = some (their + (mine - before)) := by
  have htime : name ≠ "updatedAt" := by
    rintro rfl
    exact absurd hname (by decide)
  have hlater : laterUpdate name ours loaded = none := if_neg htime
  revert hok
  fun_cases mergeField name base ours loaded with
  | case1 hsame =>
    have hcounts := count_congr hsame
    rw [hbase, hours] at hcounts
    exact fun _ => .inl ⟨rfl, (Option.some.inj hcounts).symm⟩
  | case2 _ hcurrent =>
    have hcounts := count_congr hcurrent
    rw [hbase, hloaded, Option.some.injEq] at hcounts
    refine fun _ => .inr ⟨ours, rfl, hours.trans (congrArg some ?_)⟩
    omega
  | case3 _ _ hset | case4 _ _ hset => cases hlater.symm.trans hset
  | case6 => exact nofun
  | case5 hsame hcurrent _ value hvalue =>
    intro _
    refine .inr ⟨value, rfl, ?_⟩
    by_cases hfits : their ≤ maxInt64 - (mine - before)
    · have hdelta : addDelta base ours loaded =
          some (.number (JsonNumber.formatInt (their + (mine - before)))) := by
        unfold addDelta
        simp only [hbase, hours, hloaded, Option.bind_eq_bind, Option.bind_some]
        rw [if_pos ⟨hpos, hle, hle', hfits⟩]
      cases (memberVia_counter hname hdelta).symm.trans hvalue
      have hmin : minInt64 ≤ their + (mine - before) := by
        unfold minInt64
        omega
      exact JsonNumber.parseInt_formatInt hmin (by omega)
    · rcases memberVia_cases mergeMetadataValues name base ours loaded with
        hmember | ⟨hupdated, -⟩ | ⟨-, -, w, hdelta, -⟩
      · have hnone := values_of_overflow hbase hours hloaded hpos (by omega)
          ((jsonEqual_comm _ _).trans (Bool.eq_false_iff.2 hsame)) (Bool.eq_false_iff.2 hcurrent)
        cases (hmember.trans hnone).symm.trans hvalue
      · exact absurd hupdated htime
      · simp only [addDelta, hbase, hours, hloaded, Option.bind_eq_bind, Option.bind_some,
          Option.ite_none_right_eq_some] at hdelta
        exact absurd hdelta.1.2.2.2 hfits

theorem Commit.increment_eq (hbefore : c.before name = some before)
    (hmine : c.mine name = some mine) (hfound : c.foundOwn = false) :
    c.increment name = mine - before := by
  simp [Commit.increment, hfound, hbefore, hmine]

theorem Commit.foundOwn_eq_false {base : Option Record} {ours row written : Record}
    (hown : base = none → recordEqual row ours = false) :
    Commit.foundOwn ⟨base, ours, some row, written⟩ = false := by
  cases base with
  | none => exact hown rfl
  | some base => rfl

/-- What a writer read, as the merge sees it: no record has no fields. -/
theorem Commit.count_base (hbefore : c.before name = some before) :
    count ((c.base.getD ∅).lookup name) = some before := by
  unfold Commit.before at hbefore
  cases hbase : c.base <;> rwa [hbase] at hbefore

/-- **What a committed write does to a counter.** -/
theorem counter_write (hname : name ∈ additiveCounters) (hload : LoadsCounter load name floor)
    (hwrite : Writes load c.base c.ours c.row c.written) {now : Int}
    (hbefore : c.before name = some before) (hmine : c.mine name = some mine)
    (hnow : presented load name c.row = some now) (hpos : 0 ≤ before) (hle : before ≤ mine)
    (hfloor : floor ≤ mine) (hbase : c.base.isSome → floor ≤ before)
    (hrow : c.row.isSome → before ≤ now)
    (hcounted : ∀ row, c.row = some row → ∃ n, count (row.lookup name) = some n) :
    (∃ n, count (c.written.lookup name) = some n) ∧
      presented load name (some c.written) = some (now + c.increment name) := by
  have hpresented : ∀ {record : Record} {n next : Int}, count (record.lookup name) = some n →
      max floor n = next → (∃ n, count (record.lookup name) = some n) ∧
        presented load name (some record) = some next := by
    rintro record n _ hn rfl
    exact ⟨⟨n, hn⟩, hload record n hn⟩
  have hcountBase := Commit.count_base hbefore
  have hincrement := Commit.increment_eq hbefore hmine
  obtain ⟨base, ours, row, written⟩ := c
  cases hwrite with
  | created =>
    cases hnow
    cases hbefore
    rw [hincrement rfl]
    exact hpresented hmine (by omega)
  | @found _ row hfound =>
    obtain ⟨n, hn⟩ := hcounted row rfl
    rw [presented, hload row n hn, Option.some.injEq] at hnow
    rw [recordEqual_iff.1 hfound name] at hn
    have hzero : Commit.increment name ⟨none, ours, some row, ours⟩ = 0 := by
      simp [Commit.increment, Commit.foundOwn, hfound]
    exact hpresented hn (by omega)
  | @current base _ row hcurrent =>
    obtain ⟨n, hn⟩ := hcounted row rfl
    rw [presented, hload row n hn, Option.some.injEq] at hnow
    rw [recordEqual_iff.1 hcurrent name] at hn
    have hn' : n = before := Option.some.inj (hn.symm.trans hcountBase)
    have hlow := hbase rfl
    rw [hincrement rfl]
    exact hpresented hmine (by omega)
  | @presented _ _ row hown hloaded =>
    rw [presented, recordEqual_iff.1 hloaded name, hcountBase, Option.some.injEq] at hnow
    rw [hincrement (Commit.foundOwn_eq_false hown)]
    exact hpresented hmine (by omega)
  | @merged _ _ row _ hown hfields =>
    obtain ⟨hok, hvalue⟩ := hfields name
    obtain ⟨n, hn⟩ := hcounted row rfl
    have hnow' := hnow
    rw [presented, hload row n hn, Option.some.injEq] at hnow'
    rw [hincrement (Commit.foundOwn_eq_false hown)]
    rcases mergeField_counter hname hcountBase hmine hnow hpos hle (hrow rfl) hok with
      ⟨hkeep, heq⟩ | ⟨value, hset, hcount⟩
    · rw [hkeep] at hvalue
      have hn' : count (written.lookup name) = some n := by
        rw [hvalue]
        exact hn
      exact hpresented hn' (by omega)
    · rw [hset, value_setMember] at hvalue
      rw [← hvalue] at hcount
      exact hpresented hcount (by omega)

/-- The counter through a run: its value now, and no version above it. -/
structure CounterInv (load : Record → Record) (name : String) (start now : Int)
    (s : Writers) : Prop where
  current : presented load name s.row = some now
  sum : now = start + (s.commits.map (Commit.increment name)).sum
  versions : ∀ version ∈ s.versions, ∃ value,
    presented load name version = some value ∧ 0 ≤ value ∧ value ≤ now
  counted : ∀ record, some record ∈ s.versions →
    ∃ value, count (record.lookup name) = some value

private theorem CounterInv.commit (hname : name ∈ additiveCounters)
    (hload : LoadsCounter load name floor) {start now : Int} (h : CounterInv load name start now s)
    {version : Option Record} (hversion : version ∈ s.versions) {ours written : Record}
    (hwrite : Writes load (version.map load) ours s.row written)
    (hcounts : Commit.Counts name floor ⟨version.map load, ours, s.row, written⟩) :
    ∃ now', CounterInv load name start now'
      { s with commits := s.commits ++ [⟨version.map load, ours, s.row, written⟩] } := by
  obtain ⟨before, mine, hbefore, hmine, hle, hcreated⟩ := hcounts
  obtain ⟨value, hvalue, hpos, hvnow⟩ := h.versions version hversion
  -- the writer read what a load presents of that version
  have hread : before = value := by
    cases version with
    | none =>
      cases hvalue
      exact (Option.some.inj hbefore).symm
    | some record =>
      exact Option.some.inj (hbefore.symm.trans hvalue)
  have hbase : (version.map load).isSome = true → floor ≤ before := by
    intro hsome
    cases version with
    | none => cases hsome
    | some record =>
      obtain ⟨n, hn⟩ := h.counted record hversion
      rw [presented, hload record n hn, Option.some.injEq] at hvalue
      omega
  have hfloor : floor ≤ mine := by
    cases version with
    | none => exact hcreated rfl
    | some record => exact Int.le_trans (hbase rfl) hle
  have hrowCounted : ∀ row, s.row = some row → ∃ n, count (row.lookup name) = some n := by
    intro row hrow
    exact h.counted row (hrow ▸ s.row_mem)
  subst hread
  obtain ⟨hcounted, hpresented⟩ := counter_write hname hload hwrite hbefore hmine h.current
    hpos hle hfloor hbase (fun _ => hvnow) hrowCounted
  have hgrows : 0 ≤ Commit.increment name ⟨version.map load, ours, s.row, written⟩ := by
    unfold Commit.increment
    split
    · exact Int.le_refl 0
    · rw [hbefore, hmine, Option.getD_some, Option.getD_some]
      omega
  refine ⟨now + Commit.increment name ⟨version.map load, ours, s.row, written⟩, ?_⟩
  refine { current := ?_, sum := ?_, versions := ?_, counted := ?_ }
  · rw [Writers.row_append]
    exact hpresented
  · rw [h.sum, List.map_append, List.sum_append, List.map_singleton, List.sum_singleton]
    omega
  · intro v hv
    rcases Writers.mem_versions_append.1 hv with hold | rfl
    · obtain ⟨p, hp, hp0, hpn⟩ := h.versions v hold
      exact ⟨p, hp, hp0, by omega⟩
    · exact ⟨_, hpresented, by omega, Int.le_refl _⟩
  · intro record hrecord
    rcases Writers.mem_versions_append.1 hrecord with hold | heq
    · exact h.counted record hold
    · cases heq
      exact hcounted

/-- **A counter is its initial value plus the increments.** -/
theorem counter_of_reaches {start : Int} (hname : name ∈ additiveCounters)
    (hload : LoadsCounter load name floor) {s₀ : Writers} (hfresh : s₀.commits = [])
    (hcounted : ∀ record, s₀.initial = some record →
      ∃ value, count (record.lookup name) = some value)
    (hstart : presented load name s₀.initial = some start) (hpos : 0 ≤ start)
    (hrun : Reaches (step load) Unrestricted s₀ s)
    (hcounts : ∀ c ∈ s.commits, c.Counts name floor) :
    presented load name s.row = some (start + (s.commits.map (Commit.increment name)).sum) := by
  obtain ⟨hversions, hrow⟩ := Writers.of_fresh hfresh
  have hinv : ∃ now, CounterInv load name start now s := by
    refine commits_induction (P := fun s => ∃ now, CounterInv load name start now s) hrun hcounts
      ⟨start, ?_⟩ ?_
    · refine { current := hrow ▸ hstart, sum := by simp [hfresh], versions := ?_, counted := ?_ }
      · intro v hv
        rw [hversions, List.mem_singleton] at hv
        subst hv
        exact ⟨start, hstart, hpos, Int.le_refl _⟩
      · intro record hrecord
        rw [hversions, List.mem_singleton] at hrecord
        exact hcounted record hrecord.symm
    · intro s version ours written hversion hwrite hcounts ⟨now, hnow⟩
      exact hnow.commit hname hload hversion hwrite hcounts
  obtain ⟨now, hnow⟩ := hinv
  rw [hnow.current, hnow.sum]

end Flow.Ports.MetadataRecord
