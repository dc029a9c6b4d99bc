/-
# `Soniox.Sentences` — which texts end a sentence

`endsSentence` scans the text backwards.  Forwards, and with the openers as a
parameter, what it looks for is this: the text, trimmed and without the closers
at its end, stops with a terminator, and the terminator is not a protected
period.

    3.      a digit before the period                     protected
    e.g.    a lone letter, after the start, white space,
            a period or one of the openers                protected
    put.    a letter that is not alone                    not protected

The source scans for no openers at all (`endsSentence_iff`), so a letter that
only an opening bracket or quote sets off is not alone for it: `(e.` ends a
sentence, where the comment over the scan says that a lone letter before a
period never does.  These texts are the only ones it takes for a sentence end
and should not (`endsSentence_iff_lone_letters`).
-/
import Larmindon.Soniox.Accumulator

namespace Larmindon.Soniox

/-! ## The texts that end a sentence -/

/-- The text without the white space and then the closers at its end. -/
def core (text : String) : List Char := (trimEnd text).toList.rdropWhile fun c => CLOSERS.contains c

/-- The characters end in a letter that stands alone: nothing before it, or a character that sets it
off. -/
def LoneLetter (openers cs : List Char) : Prop :=
  ∃ before letter, cs = before ++ [letter] ∧ isAlphabetic letter = true ∧
    ∀ c ∈ before.getLast?, isWhitespace c = true ∨ c = '.' ∨ c ∈ openers

/-- A period after `cs` ends no sentence. -/
def ProtectedPeriod (openers cs : List Char) : Prop :=
  (∃ before digit, cs = before ++ [digit] ∧ isAsciiDigit digit = true) ∨ LoneLetter openers cs

def SentenceEnd (openers : List Char) (text : String) : Prop :=
  ∃ before c, core text = before ++ [c] ∧ c ∈ TERMINATORS ∧
    (c = '.' → ¬ ProtectedPeriod openers before)

/-- The brackets and the quote that can open what a lone letter begins. -/
def openers : List Char := ['(', '[', '{', '“']

/-! ## The scan -/

theorem loneLetter_snoc {os before : List Char} {letter : Char} :
    LoneLetter os (before ++ [letter]) ↔ isAlphabetic letter = true ∧
      ∀ c ∈ before.getLast?, isWhitespace c = true ∨ c = '.' ∨ c ∈ os := by
  constructor
  · rintro ⟨before', letter', heq, hletter, hbefore⟩
    obtain ⟨rfl, h⟩ := List.append_inj' heq rfl
    obtain rfl := List.singleton_inj.mp h
    exact ⟨hletter, hbefore⟩
  · rintro ⟨hletter, hbefore⟩
    exact ⟨before, letter, rfl, hletter, hbefore⟩

theorem not_protectedPeriod_nil {os : List Char} : ¬ ProtectedPeriod os [] := by
  rintro (⟨before, digit, heq, -⟩ | ⟨before, letter, heq, -⟩)
  · simp at heq
  · simp at heq

theorem protectedPeriod_snoc {os before : List Char} {prev : Char} :
    ProtectedPeriod os (before ++ [prev]) ↔
      isAsciiDigit prev = true ∨ LoneLetter os (before ++ [prev]) := by
  refine or_congr ?_ Iff.rfl
  constructor
  · rintro ⟨before', digit, heq, hdigit⟩
    obtain ⟨-, h⟩ := List.append_inj' heq rfl
    rw [List.singleton_inj.mp h]
    exact hdigit
  · intro hdigit
    exact ⟨before, prev, rfl, hdigit⟩

theorem sentenceEnd_iff {os before : List Char} {c : Char} {text : String}
    (h : core text = before ++ [c]) :
    SentenceEnd os text ↔ c ∈ TERMINATORS ∧ (c = '.' → ¬ ProtectedPeriod os before) := by
  constructor
  · rintro ⟨before', c', heq, hc, hp⟩
    rw [h] at heq
    obtain ⟨rfl, h'⟩ := List.append_inj' heq rfl
    obtain rfl := List.singleton_inj.mp h'
    exact ⟨hc, hp⟩
  · rintro ⟨hc, hp⟩
    exact ⟨before, c, h, hc, hp⟩

/-- What the scan looks at, from the end of the text on. -/
theorem scanned (text : String) :
    (trimEnd text).toList.reverse.dropWhile (fun c => CLOSERS.contains c) = (core text).reverse := by
  rw [core, List.rdropWhile, List.reverse_reverse]

/-- The scan is the forward reading with no openers. -/
theorem endsSentence_iff (text : String) : endsSentence text = true ↔ SentenceEnd [] text := by
  unfold endsSentence
  rw [scanned]
  cases List.eq_nil_or_concat' (core text) with
  | inl hnil =>
      rw [hnil]
      refine iff_of_false (by simp) ?_
      rintro ⟨before, c, heq, -⟩
      rw [hnil] at heq
      simp at heq
  | inr hcons =>
      obtain ⟨before, c, hcore⟩ := hcons
      rw [sentenceEnd_iff hcore, hcore, List.reverse_append]
      simp only [List.reverse_singleton, List.singleton_append]
      cases hc : TERMINATORS.contains c with
      | false =>
          refine iff_of_false (by simp) ?_
          rintro ⟨hmem, -⟩
          rw [List.contains_iff_mem.mpr hmem] at hc
          cases hc
      | true =>
          have hmem : c ∈ TERMINATORS := List.contains_iff_mem.mp hc
          cases Decidable.em (c = '.') with
          | inr hdot => simp [hdot, hmem]
          | inl hdot =>
              subst hdot
              simp only [Bool.not_true, Bool.false_eq_true, if_false, beq_self_eq_true, if_true, hmem,
                true_and, forall_const]
              -- the character before the period, if there is one
              cases List.eq_nil_or_concat' before with
              | inl hnil =>
                  subst hnil
                  simp [not_protectedPeriod_nil]
              | inr hsnoc =>
                  obtain ⟨before, prev, rfl⟩ := hsnoc
                  rw [protectedPeriod_snoc, loneLetter_snoc, List.reverse_append]
                  simp only [List.reverse_singleton, List.singleton_append]
                  cases isAsciiDigit prev with
                  | true => simp
                  | false =>
                      cases isAlphabetic prev with
                      | false => simp
                      | true =>
                          cases List.eq_nil_or_concat' before with
                          | inl hnil =>
                              subst hnil
                              simp
                          | inr hsnoc =>
                              obtain ⟨before, b, rfl⟩ := hsnoc
                              simp

/-! ## Letters that only an opener sets off -/

theorem openers_set_off {c : Char} (h : c ∈ openers) : isWhitespace c = false ∧ c ≠ '.' := by
  simp only [openers, List.mem_cons, List.not_mem_nil, or_false] at h
  rcases h with rfl | rfl | rfl | rfl <;> decide

theorem isAsciiDigit_of_isAlphabetic {c : Char} (h : isAlphabetic c = true) :
    isAsciiDigit c = false := by
  cases hd : isAsciiDigit c with
  | false => rfl
  | true =>
      have hall : ∀ n ∈ List.range' 48 10,
          (alphabeticRanges.any fun r => r.1 ≤ n && n ≤ r.2) = false := by decide +kernel
      simp only [isAsciiDigit, Bool.and_eq_true, decide_eq_true_eq] at hd
      have hmem : c.toNat ∈ List.range' 48 10 := by
        rw [List.mem_range'_1]
        have h0 : '0'.toNat = 48 := rfl
        have h9 : '9'.toNat = 57 := rfl
        omega
      rw [isAlphabetic, hall c.toNat hmem] at h
      cases h

theorem LoneLetter.mono {os cs : List Char} (h : LoneLetter [] cs) : LoneLetter os cs := by
  obtain ⟨before, letter, rfl, hletter, hbefore⟩ := h
  refine ⟨before, letter, rfl, hletter, ?_⟩
  intro c hc
  rcases hbefore c hc with hws | hdot | hmem
  · exact Or.inl hws
  · exact Or.inr (Or.inl hdot)
  · cases hmem

/-- A letter alone among the openers is alone without them, or after one of them. -/
theorem LoneLetter.cases_opener {os cs : List Char} (h : LoneLetter os cs) :
    LoneLetter [] cs ∨ ∃ before opener letter, cs = before ++ [opener, letter] ∧ opener ∈ os ∧
      isAlphabetic letter = true := by
  obtain ⟨before, letter, rfl, hletter, hbefore⟩ := h
  cases List.eq_nil_or_concat' before with
  | inl hnil =>
      subst hnil
      exact Or.inl ⟨[], letter, rfl, hletter, by simp⟩
  | inr hsnoc =>
      obtain ⟨before, b, rfl⟩ := hsnoc
      rcases hbefore b (by simp) with hws | hdot | hmem
      · exact Or.inl ⟨before ++ [b], letter, rfl, hletter, by simp [hws]⟩
      · exact Or.inl ⟨before ++ [b], letter, rfl, hletter, by simp [hdot]⟩
      · exact Or.inr ⟨before, b, letter, by simp, hmem, hletter⟩

/-- The scan and the reading that knows the openers say the same of every text, but of those that end
in an opener, a letter and a period. -/
theorem endsSentence_iff_lone_letters (text : String) :
    (endsSentence text = true ↔ SentenceEnd openers text) ↔
      ¬ ∃ before opener letter, core text = before ++ [opener, letter, '.'] ∧ opener ∈ openers ∧
        isAlphabetic letter = true := by
  rw [endsSentence_iff]
  constructor
  · rintro hiff ⟨before, opener, letter, hcore, hopener, hletter⟩
    have hcore' : core text = (before ++ [opener] ++ [letter]) ++ ['.'] := by
      rw [hcore]
      simp
    obtain ⟨hws, hdot⟩ := openers_set_off hopener
    have hend : SentenceEnd [] text := by
      rw [sentenceEnd_iff hcore', protectedPeriod_snoc, loneLetter_snoc]
      refine ⟨by decide, fun _ => ?_⟩
      simp [isAsciiDigit_of_isAlphabetic hletter, hletter, hws, hdot]
    obtain ⟨-, hp⟩ := (sentenceEnd_iff hcore').mp (hiff.mp hend)
    apply hp rfl
    exact Or.inr ⟨before ++ [opener], letter, rfl, hletter, by simp [hopener]⟩
  · intro hnot
    constructor
    · rintro ⟨before, c, hcore, hc, hp⟩
      refine ⟨before, c, hcore, hc, ?_⟩
      rintro rfl (hdigit | hlone)
      · exact hp rfl (Or.inl hdigit)
      · rcases hlone.cases_opener with hlone | ⟨before', opener, letter, rfl, hopener, hletter⟩
        · exact hp rfl (Or.inr hlone)
        · exact hnot ⟨before', opener, letter, by rw [hcore]; simp, hopener, hletter⟩
    · rintro ⟨before, c, hcore, hc, hp⟩
      refine ⟨before, c, hcore, hc, ?_⟩
      rintro hdot (hdigit | hlone)
      · exact hp hdot (Or.inl hdigit)
      · exact hp hdot (Or.inr hlone.mono)

/-- The `e.` of `(e.g.` ends a sentence for the scan. -/
theorem endsSentence_after_bracket :
    ¬ ∀ text, endsSentence text = true ↔ SentenceEnd openers text := by
  intro h
  obtain ⟨before, c, hcore, -, hp⟩ := (h "renews (e.").mp (by decide +kernel)
  have hcore' : core "renews (e." = ("renews ".toList ++ ['('] ++ ['e']) ++ ['.'] := by
    decide +kernel
  rw [hcore'] at hcore
  obtain ⟨rfl, hc⟩ := List.append_inj' hcore rfl
  apply hp (List.singleton_inj.mp hc).symm
  refine Or.inr ⟨_, 'e', rfl, by decide +kernel, ?_⟩
  intro c hc
  obtain rfl : '(' = c := by simpa using hc
  exact Or.inr (Or.inr (by decide))

end Larmindon.Soniox
