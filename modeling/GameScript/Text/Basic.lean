/-!
# Texts

A text is a sequence of bytes. Source files may hold bytes that are no valid UTF-8, and so may the
strings of a compiled program, so names, string values, paths and messages are all texts. A string
literal coerces to the text of its UTF-8 bytes.

Texts are ordered lexicographically by their bytes. The order is linear (`Text.le_trans`, `Text.le_antisymm`,
`Text.le_total`), so that sorting puts the texts of a list in order (`Text.pairwise_sort`).
-/

namespace GameScript

/-- A **text** is a sequence of bytes, usually but not necessarily UTF-8. -/
structure Text where
  bytes : List UInt8
deriving DecidableEq, Inhabited

namespace Text

variable {s t u : Text}

/-- The UTF-8 bytes of a string. -/
def ofString (s : String) : Text := ⟨s.toUTF8.data.toList⟩

instance : Coe String Text := ⟨ofString⟩

/-- The empty text. -/
def empty : Text := ⟨[]⟩

instance : Append Text := ⟨fun a b => ⟨a.bytes ++ b.bytes⟩⟩

theorem bytes_append (a b : Text) : (a ++ b).bytes = a.bytes ++ b.bytes := rfl

/-- The number of bytes. -/
def size (t : Text) : Nat := t.bytes.length

def isEmpty (t : Text) : Bool := t.bytes.isEmpty

theorem isEmpty_iff : t.isEmpty = true ↔ t = "" := by
  have hempty : ("" : Text) = ⟨[]⟩ := rfl
  obtain ⟨bytes⟩ := t
  rw [hempty]
  cases bytes <;> simp [Text.isEmpty]

theorem isEmpty_eq_false_iff : t.isEmpty = false ↔ t ≠ "" := by
  rw [Ne, ← isEmpty_iff, Bool.not_eq_true]

/-- The text of one byte. -/
def byte (b : UInt8) : Text := ⟨[b]⟩

/-- The decimal digits of a natural number. -/
def ofNat (n : Nat) : Text := ofString (Nat.repr n)

/-- The decimal digits of an integer, after a minus sign if it is negative. -/
def ofInt : Int → Text
  | .ofNat n => ofNat n
  | .negSucc n => "-" ++ ofNat (n + 1)

/-! ### Searching and cutting -/

/-- What remains of `t` after the leading text `p`, if `t` starts with it. -/
def after? (p t : Text) : Option Text :=
  if p.bytes.isPrefixOf t.bytes then some ⟨t.bytes.drop p.size⟩ else none

def startsWith (t p : Text) : Bool := p.bytes.isPrefixOf t.bytes

def endsWith (t s : Text) : Bool := s.bytes.isSuffixOf t.bytes

/-- `t` without the leading text `p`, or `t` itself if it does not start with it. -/
def trimStart (t p : Text) : Text := (after? p t).getD t

/-- Whether `part` occurs in a list of bytes. -/
def occursIn (part : List UInt8) : List UInt8 → Bool
  | [] => part.isEmpty
  | b :: bs => part.isPrefixOf (b :: bs) || occursIn part bs

def contains (t part : Text) : Bool := occursIn part.bytes t.bytes

def take (t : Text) (n : Nat) : Text := ⟨t.bytes.take n⟩

def drop (t : Text) (n : Nat) : Text := ⟨t.bytes.drop n⟩

/-- The position of the first occurrence of a byte. -/
def indexOf? (t : Text) (b : UInt8) : Option Nat := t.bytes.findIdx? (· == b)

/-- The position of the last occurrence of a byte. -/
def lastIndexOf? (t : Text) (b : UInt8) : Option Nat :=
  (t.bytes.reverse.findIdx? (· == b)).map (t.size - 1 - ·)

/-- The pieces of a list of bytes between the occurrences of a byte; there is always a first one. -/
def splitBytes (sep : UInt8) : List UInt8 → List (List UInt8)
  | [] => [[]]
  | b :: bs =>
    if b = sep then [] :: splitBytes sep bs
    else match splitBytes sep bs with
      | [] => [[b]]
      | piece :: rest => (b :: piece) :: rest

/-- The pieces between the occurrences of a byte. -/
def split (t : Text) (sep : UInt8) : List Text := (splitBytes sep t.bytes).map Text.mk

/-- The texts of a list, one after the other. -/
def concat (ts : List Text) : Text := ⟨ts.flatMap Text.bytes⟩

/-- The texts of a list with `sep` between neighbours. -/
def join (sep : Text) : List Text → Text
  | [] => empty
  | [t] => t
  | t :: u :: ts => t ++ sep ++ join sep (u :: ts)

/-- The same text over and over. -/
def times (n : Nat) (t : Text) : Text := concat (List.replicate n t)

/-! ### Order -/

/-- Compares two lists of bytes lexicographically. -/
def compareBytes : List UInt8 → List UInt8 → Ordering
  | [], [] => .eq
  | [], _ :: _ => .lt
  | _ :: _, [] => .gt
  | a :: as, b :: bs => if a < b then .lt else if b < a then .gt else compareBytes as bs

/-- The lexicographic order by bytes. -/
def compare (a b : Text) : Ordering := compareBytes a.bytes b.bytes

def le (a b : Text) : Bool := compare a b != .gt

theorem compareBytes_eq (as bs : List UInt8) : compareBytes as bs = Ord.compare as bs := by
  induction as generalizing bs with
  | nil => cases bs <;> rfl
  | cons a as ih =>
    cases bs with
    | nil => rfl
    | cons b bs =>
      have hbyte : Ord.compare a b = compareOfLessAndEq a b := rfl
      rw [compareBytes, ih]
      simp only [List.compare_eq_compareLex, List.compareLex_cons_cons, hbyte, compareOfLessAndEq]
      by_cases hlt : a < b
      · simp [hlt]
      · by_cases heq : a = b
        · simp [heq]
        · have hgt : b < a := by
            simp only [UInt8.lt_iff_toNat_lt, ← UInt8.toNat_inj] at hlt heq ⊢
            omega
          simp [hlt, heq, hgt]

theorem le_iff : s.le t = true ↔ (Ord.compare s.bytes t.bytes).isLE = true := by
  unfold le compare
  rw [compareBytes_eq]
  cases Ord.compare s.bytes t.bytes <;> decide

theorem le_trans (h : s.le t = true) (h' : t.le u = true) : s.le u = true := by
  rw [le_iff] at h h' ⊢
  exact Std.TransCmp.isLE_trans h h'

theorem le_antisymm (h : s.le t = true) (h' : t.le s = true) : s = t := by
  rw [le_iff] at h h'
  have hbytes : s.bytes = t.bytes := Std.LawfulEqCmp.compare_eq_iff_eq.mp (Std.OrientedCmp.isLE_antisymm h h')
  cases s
  cases t
  exact congrArg mk hbytes

theorem le_total (s t : Text) : s.le t = true ∨ t.le s = true := by
  have hswap : Ord.compare t.bytes s.bytes = (Ord.compare s.bytes t.bytes).swap := Std.OrientedCmp.eq_swap
  rw [le_iff, le_iff, hswap]
  cases Ord.compare s.bytes t.bytes <;> simp

theorem le_refl (t : Text) : t.le t = true := by simpa using le_total t t

/-- The texts of a list in lexicographic order. -/
def sort (ts : List Text) : List Text := ts.mergeSort le

@[simp] theorem mem_sort {ts : List Text} : t ∈ sort ts ↔ t ∈ ts := List.mem_mergeSort

theorem pairwise_sort (ts : List Text) : (sort ts).Pairwise fun s t => s.le t = true := by
  have htrans : ∀ s t u : Text, s.le t = true → t.le u = true → s.le u = true := fun _ _ _ => le_trans
  have htotal : ∀ s t : Text, (s.le t || t.le s) = true := fun s t => Bool.or_eq_true_iff.mpr (le_total s t)
  exact List.pairwise_mergeSort htrans htotal ts

/-- A sorted list without the repetitions of neighbours. -/
def dedup : List Text → List Text
  | [] => []
  | [t] => [t]
  | t :: u :: ts => if t = u then dedup (u :: ts) else t :: dedup (u :: ts)

/-! ### ASCII letters -/

/-- The capital of a lower-case ASCII letter. -/
def upperByte (b : UInt8) : UInt8 := if 97 ≤ b && b ≤ 122 then b - 32 else b

/-- `t` with its first letter in upper case, if that is an ASCII letter. -/
def capitalize (t : Text) : Text :=
  match t.bytes with
  | [] => t
  | b :: bs => ⟨upperByte b :: bs⟩

/-- Whether the text is made of ASCII bytes only. -/
def isAscii (t : Text) : Bool := t.bytes.all (· < 128)

end Text

end GameScript
