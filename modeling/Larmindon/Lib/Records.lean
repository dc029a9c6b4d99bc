/-
# `Lib.Records` — records of one width, one behind the other

A `Codec` writes a record as `n` elements and reads it back from them.  A list of
records is written as their elements in a row; reading cuts a list into pieces of
`n` and reads each, so what is behind the last full piece is not read.

    read_write     what was written is read
    read_append    whole records are read apart from what follows them
-/
import Larmindon.Lib.Chunks

namespace Records

universe u v

variable {R : Type u} {α : Type v} {n : ℕ}

/-- Records of `n` elements each. -/
structure Codec (R : Type u) (α : Type v) (n : ℕ) where
  encode : R → List α
  decode : List α → R
  pos : 0 < n
  length_encode : ∀ r, (encode r).length = n
  decode_encode : ∀ r, decode (encode r) = r

/-- Lists of one length, one behind the other, are cut where they meet. -/
theorem cut_flatMap (hn : 0 < n) {f : R → List α} (hf : ∀ r, (f r).length = n) (rs : List R) :
    Chunks.cut n (rs.flatMap f) = rs.map f := by
  induction rs with
  | nil => exact Chunks.cut_nil n
  | cons r rs ih =>
      have hdvd : n ∣ (f r).length := ⟨1, by rw [hf, Nat.mul_one]⟩
      rw [List.flatMap_cons, Chunks.cut_append hn hdvd, Chunks.cut_of_length hn (hf r), ih,
        List.singleton_append, List.map_cons]

theorem length_flatMap {f : R → List α} (hf : ∀ r, (f r).length = n) (rs : List R) :
    (rs.flatMap f).length = n * rs.length := by
  induction rs with
  | nil => rfl
  | cons r rs ih =>
      rw [List.flatMap_cons, List.length_append, hf, ih, List.length_cons, Nat.mul_succ, Nat.add_comm]

namespace Codec

variable (c : Codec R α n)

def write (rs : List R) : List α := rs.flatMap c.encode

def read (xs : List α) : List R := (Chunks.cut n xs).map c.decode

@[simp] theorem write_append (rs rs' : List R) : c.write (rs ++ rs') = c.write rs ++ c.write rs' := by
  rw [write, write, write, List.flatMap_append]

theorem length_write (rs : List R) : (c.write rs).length = n * rs.length :=
  length_flatMap c.length_encode rs

theorem read_write (rs : List R) : c.read (c.write rs) = rs := by
  rw [read, write, cut_flatMap c.pos c.length_encode, List.map_map]
  have hid : c.decode ∘ c.encode = id := funext c.decode_encode
  rw [hid, List.map_id]

end Codec

end Records
