import Mathlib.Algebra.Order.Ring.Nat
import Mathlib.Data.List.Induction
import Mathlib.Data.List.Lex

/-!
# Stamps of record ids

A stamp starts with nanoseconds in 19 digits.  A call loads the last value, reads the
clock and swaps its own value in, unless another call was faster; then it starts again.
Calls share only the last value, so an interleaving of them is a sequence of swaps, each
with the reading of its call and the value that the call has loaded, at any time before.

One more than the greatest 64-bit value is the least: after the end of the clock's range
stamps are handed out again (`stamp_repeated`).
-/

namespace Flow.Ports.IdGenerator

open List

def crockford : List Char := "0123456789abcdefghjkmnpqrstvwxyz".toList

/-- The loop over the digits, from the last one. -/
def appendDigits : Nat → Nat → List Char → List Char
  | 0, _, digits => digits
  | index + 1, nanos, digits =>
    appendDigits index (nanos / 10) (Char.ofNat (48 + nanos % 10) :: digits)

def randomPart : Nat → Nat → List Char
  | 0, _ => []
  | n + 1, bits => crockford.getD (bits % 32) '0' :: randomPart n (bits / 32)

def appendStamp (nanos bits : Nat) : List Char :=
  appendDigits 19 nanos ('_' :: randomPart 10 bits)

structure Attempt where
  /-- How many swaps ago the call has loaded the last value. -/
  age : Nat
  clock : Int
  /-- A reading is a signed 64-bit number. -/
  clock_le : clock ≤ 9223372036854775807

/-- The value that a call tries to swap in. -/
def Attempt.now (attempt : Attempt) (last : Int) : Int :=
  let now := max attempt.clock 0
  -- the sum of signed 64-bit numbers
  if now ≤ last then (last + 1).bmod 18446744073709551616 else now

/-- `CompareAndSwap`, on all values so far, the latest first. -/
def compareAndSwap (values : List Int) (attempt : Attempt) : List Int :=
  match values[attempt.age]? with
  | none => values
  | some last => if values.head? = some last then attempt.now last :: values else values

def run (attempts : List Attempt) : List Int := attempts.foldl compareAndSwap [0]

/-- What the calls return, in the order of their swaps. -/
def stamps (attempts : List Attempt) : List Nat :=
  (run attempts).dropLast.reverse.map fun now => (now % 18446744073709551616).toNat

/-- Texts of as many digits are in the order of their numbers. -/
theorem appendDigits_lt {n m : Nat} {left right : List Char} (k : Nat) (hm : m < 10 ^ k)
    (h : n < m ∨ n = m ∧ left < right) : appendDigits k n left < appendDigits k m right := by
  induction k generalizing n m left right with
  | zero => exact (h.resolve_left (by omega)).2
  | succ k ih =>
    refine ih (by omega) ?_
    rcases h with hlt | ⟨rfl, hlt⟩
    · by_cases hdiv : n / 10 < m / 10
      · exact .inl hdiv
      · -- the numbers differ in their last digit
        have hdigit : ∀ d e : Fin 10, d < e → Char.ofNat (48 + d) < Char.ofNat (48 + e) := by
          decide
        have hchar := hdigit ⟨n % 10, by omega⟩ ⟨m % 10, by omega⟩ (show n % 10 < m % 10 by omega)
        exact .inr ⟨by omega, cons_lt_cons_iff.mpr (.inl hchar)⟩
    · exact .inr ⟨rfl, cons_lt_cons_iff.mpr (.inr ⟨rfl, hlt⟩)⟩

theorem appendDigits_eq (k n : Nat) (rest : List Char) : ∃ digits, digits.length = k ∧
    digits.all Char.isDigit ∧ appendDigits k n rest = digits ++ rest := by
  induction k generalizing n rest with
  | zero => exact ⟨[], rfl, rfl, rfl⟩
  | succ k ih =>
    obtain ⟨digits, hlength, hdigits, heq⟩ := ih (n / 10) (Char.ofNat (48 + n % 10) :: rest)
    have hdigit : ∀ d : Fin 10, (Char.ofNat (48 + d)).isDigit := by decide
    have hlast := hdigit ⟨n % 10, by omega⟩
    exact ⟨digits ++ [Char.ofNat (48 + n % 10)], by simp [hlength], by simp [hdigits, hlast],
      by simp [appendDigits, heq]⟩

theorem Attempt.lt_now {last : Int} (attempt : Attempt) (hnonneg : 0 ≤ last)
    (hlast : last < 9223372036854775807) :
    last < attempt.now last ∧ attempt.now last ≤ 9223372036854775807 := by
  have hclock := attempt.clock_le
  unfold Attempt.now
  rw [Int.bmod_eq_of_le (by omega) (by omega)]
  dsimp only
  split
  · omega
  · omega

theorem compareAndSwap_cases (values : List Int) (attempt : Attempt) :
    compareAndSwap values attempt = values ∨ ∃ last rest, values = last :: rest ∧
      compareAndSwap values attempt = attempt.now last :: values := by
  unfold compareAndSwap
  split
  · exact .inl rfl
  · rename_i last _
    by_cases hhead : values.head? = some last
    · obtain ⟨rest, hvalues⟩ := head?_eq_some_iff.mp hhead
      exact .inr ⟨last, rest, hvalues, if_pos hhead⟩
    · exact .inl (if_neg hhead)

/-- As long as no swap replaces the greatest value, every value is above those before it.
All values but the latest have been replaced. -/
theorem run_spec (attempts : List Attempt)
    (h : ∀ value ∈ (run attempts).tail, value < 9223372036854775807) :
    (run attempts).Pairwise (· > ·) ∧
      ∀ value ∈ run attempts, 0 ≤ value ∧ value ≤ 9223372036854775807 := by
  induction attempts using reverseRecOn with
  | nil => simp [run]
  | append_singleton attempts attempt ih =>
    have hrun : run (attempts ++ [attempt]) = compareAndSwap (run attempts) attempt :=
      foldl_concat ..
    rw [hrun] at h ⊢
    rcases compareAndSwap_cases (run attempts) attempt with hsame | ⟨last, rest, hvalues, hswap⟩
    · rw [hsame] at h ⊢
      exact ih h
    · rw [hswap] at h ⊢
      obtain ⟨hsorted, hrange⟩ := ih fun value hvalue => h value (mem_of_mem_tail hvalue)
      have hmem : last ∈ run attempts := hvalues ▸ mem_cons_self
      have hnow := attempt.lt_now (hrange last hmem).1 (h last hmem)
      have habove : ∀ value ∈ run attempts, value < attempt.now last := by
        intro value hvalue
        rw [hvalues] at hvalue hsorted
        rcases mem_cons.mp hvalue with rfl | hrest
        · exact hnow.1
        · exact Int.lt_trans (rel_of_pairwise_cons hsorted hrest) hnow.1
      refine ⟨pairwise_cons.mpr ⟨habove, hsorted⟩, fun value hvalue => ?_⟩
      rcases mem_cons.mp hvalue with rfl | hvalue
      · have := hrange last hmem
        omega
      · exact hrange value hvalue

/-- **Stamps strictly increase** in the order of the swaps, as numbers and as texts, and have
19 digits, as long as no swap replaces the greatest value. -/
theorem stamps_increase (attempts : List Attempt)
    (h : ∀ value ∈ (run attempts).tail, value < 9223372036854775807) :
    (stamps attempts).Pairwise (fun a b => a < b ∧
      ∀ bits bits', appendStamp a bits < appendStamp b bits') ∧
    ∀ stamp ∈ stamps attempts, ∀ bits, ∃ digits rest, digits.length = 19 ∧
      digits.all Char.isDigit ∧ rest.length = 10 ∧
      appendStamp stamp bits = digits ++ '_' :: rest := by
  obtain ⟨hsorted, hrange⟩ := run_spec attempts h
  constructor
  · refine pairwise_map.mpr (pairwise_reverse.mpr ?_)
    refine (hsorted.sublist (dropLast_sublist _)).imp_of_mem fun {a b} ha hb hab => ?_
    have ha := hrange a (dropLast_subset _ ha)
    have hb := hrange b (dropLast_subset _ hb)
    have hlt : (b % 18446744073709551616).toNat < (a % 18446744073709551616).toNat := by omega
    exact ⟨hlt, fun bits bits' => appendDigits_lt 19 (by omega) (.inl hlt)⟩
  · intro stamp _ bits
    obtain ⟨digits, hlength, hdigits, heq⟩ :=
      appendDigits_eq 19 stamp ('_' :: randomPart 10 bits)
    exact ⟨digits, _, hlength, hdigits, rfl, heq⟩

/-- A call whose clock reads two nanoseconds before the end of the range. -/
def lateCall (age : Nat) : Attempt := ⟨age, 9223372036854775806, by decide⟩

/-- Of two calls that have loaded the same value one is too late and starts again; its stamp is
the last one below the end of the range. -/
theorem increase_two_calls :
    stamps [lateCall 0, lateCall 1, lateCall 0] = [9223372036854775806, 9223372036854775807] ∧
      ∀ bits bits', appendStamp 9223372036854775806 bits <
        appendStamp 9223372036854775807 bits' := by
  have hstamps : stamps [lateCall 0, lateCall 1, lateCall 0] =
      [9223372036854775806, 9223372036854775807] := by decide +kernel
  have hincrease := (stamps_increase [lateCall 0, lateCall 1, lateCall 0]
    (by decide +kernel)).1
  rw [hstamps] at hincrease
  exact ⟨hstamps, (rel_of_pairwise_cons hincrease mem_cons_self).2⟩

/-- The fourth of four such calls hands out the stamp of the first again. -/
theorem stamp_repeated :
    stamps (replicate 4 (lateCall 0)) =
      [9223372036854775806, 9223372036854775807, 9223372036854775808, 9223372036854775806] := by
  decide +kernel

end Flow.Ports.IdGenerator
