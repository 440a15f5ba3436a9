import Flow.Ports.DiffComputer

/-!
# Patches and the cache of diffs

Without both texts a diff is read from a patch, line by line: a line that starts like a hunk
header opens a hunk, a line of the file header is skipped, and every other line goes to the
open hunk by its first character.

A diff is kept under the name of its file, its variant and a fingerprint of the lengths of
the patch and of both texts and of 64 units of the patch, so it can be returned for another
input (`diff_of_other_text`).
-/

namespace Flow.Ports.DiffComputer

open Flow.Verified.Utf16 List

/-! ## Patches -/

def isDigit (unit : UInt16) : Bool := 48 ≤ unit && unit ≤ 57

/-- `(\d+)`, and what follows it. -/
def number? (text : Text) : Option (Nat × Text) :=
  match text.takeWhile isDigit with
  | [] => none
  | digits =>
    some (digits.foldl (fun n unit => 10 * n + (unit.toNat - 48)) 0, text.dropWhile isDigit)

def expect (word : String) (text : Text) : Option Text :=
  if startsWith text word then some (text.drop (units word).length) else none

/-- `(\d+)(?:,(\d+))?`; a comma without a number fails at the blank that has to follow. -/
def range? (text : Text) : Option (Nat × Nat × Text) := do
  let (start, rest) ← number? text
  match expect "," rest with
  | none => return (start, 1, rest)
  | some rest =>
    let (count, rest) ← number? rest
    return (start, count, rest)

/-- A hunk header at the start of the text. -/
def headerAt (text : Text) : Option (Nat × Nat × Nat × Nat) := do
  let rest ← expect "@@ -" text
  let (oldStart, oldCount, rest) ← range? rest
  let rest ← expect " +" rest
  let (newStart, newCount, rest) ← range? rest
  let _ ← expect " @@" rest
  return (oldStart, oldCount, newStart, newCount)

/-- The hunks so far, the open one first, and the numbers of the next lines. -/
structure Reader where
  hunks : List DiffHunk
  oldNumber : Nat
  newNumber : Nat

def Reader.push (s : Reader) (line : DiffLine) : List DiffHunk :=
  match s.hunks with
  | current :: hunks => { current with lines := current.lines ++ [line] } :: hunks
  | [] => []

def Reader.readLine (s : Reader) (raw : Text) : Reader :=
  if startsWith raw "+" then
    ⟨s.push (.add (raw.drop 1) s.newNumber), s.oldNumber, s.newNumber + 1⟩
  else if startsWith raw "-" then
    ⟨s.push (.remove (raw.drop 1) s.oldNumber), s.oldNumber + 1, s.newNumber⟩
  else
    let content := if startsWith raw " " then raw.drop 1 else raw
    ⟨s.push (.context content s.oldNumber s.newNumber), s.oldNumber + 1, s.newNumber + 1⟩

def fileHeaders : List String := ["diff ", "index ", "--- ", "+++ ", "\\ No newline"]

def Reader.read (s : Reader) (raw : Text) : Reader :=
  if raw = [] then s
  else if startsWith raw "@@" then
    -- the expression matches at the first place that it can
    match raw.tails.findSome? headerAt with
    | none => s
    | some (oldStart, oldCount, newStart, newCount) =>
      ⟨⟨oldStart, oldCount, newStart, newCount, raw, []⟩ :: s.hunks, oldStart, newStart⟩
  else if fileHeaders.any (startsWith raw) then s
  else if s.hunks = [] then
    -- a body without a header
    Reader.readLine ⟨[⟨1, 0, 1, 0, units "@@ -1 +1 @@", []⟩], 1, 1⟩ raw
  else s.readLine raw

def parsePatchHunks (patch : Option Text) : List DiffHunk :=
  (((patch.getD []).splitOn newline).foldl Reader.read ⟨[], 0, 0⟩).hunks.reverse

/-! ## The cache -/

inductive DiffVariant where
  | basic
  | structural
deriving DecidableEq, Repr

structure DiffComputeInput where
  filename : Text
  patch : Option Text := none
  original : Option Text := none
  modified : Option Text := none
  collapseUnchangedAreas : Option Bool := none
  enableStructuralDiff : Option Bool := none

/-- `buildComputedFileDiff`, which falls back to the hunks of the patch. -/
def buildFileDiff (input : DiffComputeInput) (variant : DiffVariant) : ComputedFileDiff :=
  match variant, input.original, input.modified with
  | .structural, some original, some modified =>
    buildComputedFileDiff original modified input.collapseUnchangedAreas
  | _, _, _ =>
    let hunks := parsePatchHunks input.patch
    let lines := hunks.flatMap DiffHunk.lines
    let lines := if input.collapseUnchangedAreas.getD true then collapseUnchanged lines else lines
    ⟨hunks, lines, pairDiffLines lines, lines.countP (·.old?.isNone),
      lines.countP (·.new?.isNone)⟩

def hashFingerPrint (patch original modified : Option Text) : Nat :=
  let length (text : Option Text) := (text.getD []).length
  let lengths := s!"{length patch}:{length original}:{length modified}:"
  let raw := units lengths ++ (patch.getD []).take 64
  raw.foldl (fun h unit => (31 * h + unit.toNat) % 4294967296) 0

/-- The parts of a key.  Only the file name can have a colon, so no two keys are one text. -/
abbrev Key := Text × DiffVariant × Nat

def cacheKey (input : DiffComputeInput) (variant : DiffVariant) : Key :=
  (input.filename, variant, hashFingerPrint input.patch input.original input.modified)

/-- The entries, the oldest first. -/
abbrev Cache := List (Key × ComputedFileDiff)

def getCached (cache : Cache) (key : Key) : Option ComputedFileDiff :=
  (cache.find? (·.1 = key)).map Prod.snd

def putCache (cache : Cache) (key : Key) (diff : ComputedFileDiff) : Cache :=
  let cache :=
    if cache.any (·.1 = key) then
      cache.map fun entry => if entry.1 = key then (key, diff) else entry
    else cache ++ [(key, diff)]
  if cache.length > 256 then cache.tail else cache

/-- The calls, and the two ends of the generator `computeFileDiff`: other calls can come
between its look into the cache and its result. -/
inductive Call where
  | computeSync (input : DiffComputeInput) (variant : DiffVariant)
  | begin (input : DiffComputeInput) (requested : Option DiffVariant)
  | finish (input : DiffComputeInput) (requested : Option DiffVariant)

namespace Call

def input : Call → DiffComputeInput
  | computeSync input _ | begin input _ | finish input _ => input

def variant : Call → DiffVariant
  | computeSync _ variant => variant
  | begin input requested | finish input requested => requested.getD
      (if input.enableStructuralDiff.getD false then .structural else .basic)

def key (call : Call) : Key := cacheKey call.input call.variant

def built (call : Call) : ComputedFileDiff := buildFileDiff call.input call.variant

def run (cache : Cache) (call : Call) : Cache × Option ComputedFileDiff :=
  match call, getCached cache call.key with
  | computeSync _ _, some diff | begin _ _, some diff => (cache, some diff)
  | begin _ _, none => (cache, none)
  | computeSync _ _, none | finish _ _, _ => (putCache cache call.key call.built, some call.built)

end Call

def results (cache : Cache) : List Call → List (Call × ComputedFileDiff)
  | [] => []
  | call :: calls =>
    let (cache', result) := call.run cache
    (result.toList.map fun diff => (call, diff)) ++ results cache' calls

/-- What a diff is computed from. -/
inductive Source where
  | texts (original modified : Text)
  | patch (patch : Text)
deriving DecidableEq

/-- The source of a call's diff, and whether unchanged areas are collapsed. -/
def Call.source (call : Call) : Source × Bool :=
  let source :=
    match call.variant, call.input.original, call.input.modified with
    | .structural, some original, some modified => Source.texts original modified
    | _, _, _ => .patch (call.input.patch.getD [])
  (source, call.input.collapseUnchangedAreas.getD true)

/-- The entries are diffs of calls with their keys. -/
def Built (calls : List Call) (cache : Cache) : Prop :=
  ∀ entry ∈ cache, ∃ call ∈ calls, call.key = entry.1 ∧ call.built = entry.2

variable {cache : Cache} {calls : List Call}

theorem Call.built_eq {a b : Call} (h : a.source = b.source) : a.built = b.built := by
  unfold Call.source at h
  unfold Call.built buildFileDiff buildComputedFileDiff parsePatchHunks
  obtain ⟨hsource, hcollapse⟩ := Prod.mk.inj h
  rw [hcollapse]
  split at hsource <;> split at hsource <;> simp_all

theorem mem_putCache {key : Key} {diff : ComputedFileDiff} {entry : Key × ComputedFileDiff}
    (h : entry ∈ putCache cache key diff) : entry ∈ cache ∨ entry = (key, diff) := by
  have hset {l : Cache} (h : entry ∈ if l.length > 256 then l.tail else l) : entry ∈ l := by
    split at h
    · exact mem_of_mem_tail h
    · exact h
  replace h := hset h
  split at h
  · obtain ⟨old, hold, rfl⟩ := mem_map.mp h
    split
    · exact .inr rfl
    · exact .inl hold
  · simpa using h

/-- One call keeps the entries, and returns its own diff. -/
theorem Built.run (h : Built calls cache)
    (hkeys : ∀ a ∈ calls, ∀ b ∈ calls, a.key = b.key → a.source = b.source) {call : Call}
    (hcall : call ∈ calls) :
    Built calls (call.run cache).1 ∧ ∀ diff ∈ (call.run cache).2, diff = call.built := by
  have hput : Built calls (putCache cache call.key call.built) := by
    intro entry hentry
    rcases mem_putCache hentry with hold | rfl
    · exact h entry hold
    · exact ⟨call, hcall, rfl, rfl⟩
  have hcached : ∀ diff ∈ getCached cache call.key, diff = call.built := by
    intro diff hdiff
    obtain ⟨entry, hfind, rfl⟩ := Option.map_eq_some_iff.mp hdiff
    obtain ⟨other, hother, hkey, hbuilt⟩ := h entry (mem_of_find?_eq_some hfind)
    have hsame : entry.1 = call.key := by simpa using find?_some hfind
    exact hbuilt.symm.trans (Call.built_eq (hkeys other hother call hcall (hkey.trans hsame)))
  unfold Call.run
  split
  all_goals grind

/-- **The cache is transparent** where calls with the same key have the same source and the same
setting for unchanged areas. -/
theorem results_eq_built (hkeys : ∀ a ∈ calls, ∀ b ∈ calls, a.key = b.key → a.source = b.source) :
    ∀ result ∈ results [] calls, result.2 = result.1.built := by
  suffices hrun : ∀ later ⊆ calls, ∀ cache, Built calls cache →
      ∀ result ∈ results cache later, result.2 = result.1.built from
    hrun calls (fun _ h => h) [] nofun
  intro later
  induction later with
  | nil => exact fun _ _ _ _ hresult => absurd hresult not_mem_nil
  | cons call later ih =>
    intro hlater cache hcache result hresult
    obtain ⟨hcall, hlater⟩ := cons_subset.mp hlater
    obtain ⟨hnext, hresults⟩ := hcache.run hkeys hcall
    rcases mem_append.mp hresult with hresult | hresult
    · obtain ⟨diff, hdiff, rfl⟩ := mem_map.mp hresult
      exact hresults diff (Option.mem_toList.mp hdiff)
    · exact ih hlater _ hnext result hresult

/-- The diffs of two versions of a file, one from its texts and one from its patch, between the
two ends of a generator for the first: the second call for the patch finds its diff. -/
def versions : List Call :=
  let texts : DiffComputeInput :=
    { filename := units "f", original := units "a", modified := units "b" }
  let patched : DiffComputeInput :=
    { filename := units "f", patch := units "@@ -3 +3,2 @@\n x\n+😀" }
  [.begin texts (some .structural), .computeSync patched .basic, .computeSync patched .basic,
    .finish texts (some .structural)]

theorem versions_built :
    (results [] versions).map (·.2.lines) =
        [[.context (units "x") 3 3, .add (units "😀") 4],
          [.context (units "x") 3 3, .add (units "😀") 4],
          [.remove (units "a") 1, .add (units "b") 1]] ∧
      ∀ result ∈ results [] versions, result.2 = result.1.built :=
  ⟨by decide +kernel, results_eq_built (by decide +kernel)⟩

/-- The diff of `a` and `b` is returned for `b` and `b`. -/
theorem diff_of_other_text :
    let input (original : Text) : DiffComputeInput :=
      { filename := units "f", original := some original, modified := some (units "b") }
    let call original := Call.computeSync (input (units original)) .structural
    (results [] [call "a", call "b"]).map (·.2.lines) =
        [[.remove (units "a") 1, .add (units "b") 1],
          [.remove (units "a") 1, .add (units "b") 1]] ∧
      (buildFileDiff (input (units "b")) .structural).lines = [] := by
  decide +kernel

end Flow.Ports.DiffComputer
