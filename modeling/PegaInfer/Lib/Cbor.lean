import Mathlib

namespace PegaInfer.Cbor

/-- A number in `width` bytes, the most significant one first. -/
def bigEndian : Nat → Nat → List UInt8
  | 0, _ => []
  | width + 1, n => bigEndian width (n / 256) ++ [UInt8.ofNat n]

/-- The first byte of a head: the major type and the additional information. -/
def lead (major info : Nat) : UInt8 := UInt8.ofNat (32 * major + info)

/-- The heads that denote `n`: in the first byte itself, or in an argument of
one, two, four or eight bytes that is wide enough. -/
inductive IsHead (major n : Nat) : List UInt8 → Prop
  | direct (small : n < 24) : IsHead major n [lead major n]
  | wide {k : Nat} (width : k < 4) (fits : n < 256 ^ 2 ^ k) :
      IsHead major n (lead major (24 + k) :: bigEndian (2 ^ k) n)

/-- The first head that is wide enough. -/
def head (major n : Nat) : List UInt8 :=
  if n < 24 then [lead major n]
  else if n < 256 ^ 1 then lead major 24 :: bigEndian 1 n
  else if n < 256 ^ 2 then lead major 25 :: bigEndian 2 n
  else if n < 256 ^ 4 then lead major 26 :: bigEndian 4 n
  else lead major 27 :: bigEndian 8 n

inductive Item
  | uint (n : Nat)
  | bytes (content : List UInt8)
  | text (utf8 : List UInt8)
  | array (items : List Item)
  | null

mutual

/-- The definite-length encodings of an item. -/
def Encodes : Item → List UInt8 → Prop
  | .uint n => IsHead 0 n
  | .bytes content => fun s => ∃ front, IsHead 2 content.length front ∧ s = front ++ content
  | .text utf8 => fun s => ∃ front, IsHead 3 utf8.length front ∧ s = front ++ utf8
  | .array items => fun s => ∃ front body, IsHead 4 items.length front ∧
    EncodesAll items body ∧ s = front ++ body
  | .null => fun s => s = [lead 7 22]

def EncodesAll : List Item → List UInt8 → Prop
  | [] => fun s => s = []
  | item :: items => fun s => ∃ first rest, Encodes item first ∧ EncodesAll items rest ∧ s = first ++ rest

end

mutual

def encode : Item → List UInt8
  | .uint n => head 0 n
  | .bytes content => head 2 content.length ++ content
  | .text utf8 => head 3 utf8.length ++ utf8
  | .array items => head 4 items.length ++ encodeAll items
  | .null => [lead 7 22]

def encodeAll : List Item → List UInt8
  | [] => []
  | item :: items => encode item ++ encodeAll items

end

mutual

/-- Every number and every length has an eight-byte argument. -/
def Fits : Item → Prop
  | .uint n => n < 256 ^ 8
  | .bytes content => content.length < 256 ^ 8
  | .text utf8 => utf8.length < 256 ^ 8
  | .array items => items.length < 256 ^ 8 ∧ FitsAll items
  | .null => True

def FitsAll : List Item → Prop
  | [] => True
  | item :: items => Fits item ∧ FitsAll items

end

/-- A member of a family of encodings that every other member is longer than. -/
def Shortest (Valid : List UInt8 → Prop) (s : List UInt8) : Prop :=
  Valid s ∧ ∀ other, Valid other → other.length ≤ s.length → other = s

/-- The canonical encoding of an item: every other encoding of it is longer. -/
def Canonical (item : Item) (s : List UInt8) : Prop := Shortest (Encodes item) s

variable {major a b n width info info' : Nat} {s t x y : List UInt8} {Valid Valid' : List UInt8 → Prop}

@[simp] theorem length_bigEndian (width n : Nat) : (bigEndian width n).length = width := by
  induction width generalizing n with
  | zero => rfl
  | succ width ih => simp [bigEndian, ih]

theorem bigEndian_injective (fitsA : a < 256 ^ width) (fitsB : b < 256 ^ width)
    (same : bigEndian width a = bigEndian width b) : a = b := by
  induction width generalizing a b with
  | zero => omega
  | succ width ih =>
    simp only [bigEndian] at same
    obtain ⟨high, low⟩ := List.append_inj same (by simp)
    have upper := ih (by rw [pow_succ] at fitsA; omega) (by rw [pow_succ] at fitsB; omega) high
    have lower : a % 256 = b % 256 := by
      have := congrArg UInt8.toNat (List.singleton_inj.mp low)
      simpa using this
    omega

theorem lead_injective (small : info < 32) (small' : info' < 32)
    (same : lead major info = lead major info') : info = info' := by
  have := congrArg UInt8.toNat same
  simp only [lead, UInt8.toNat_ofNat'] at this
  omega

theorem IsHead.lead (isHead : IsHead major n s) :
    ∃ info rest, info < 28 ∧ s = Cbor.lead major info :: rest := by
  cases isHead with
  | direct small => exact ⟨n, [], by omega, rfl⟩
  | wide width fits => exact ⟨_, _, by omega, rfl⟩

/-- A head shows where it ends, whichever of its forms is used. -/
theorem IsHead.append_inj (left : IsHead major a s) (right : IsHead major b t)
    (same : s ++ x = t ++ y) : a = b ∧ x = y := by
  cases left with
  | direct small =>
    cases right with
    | direct small' =>
      obtain ⟨first, rest⟩ := List.cons.inj same
      exact ⟨lead_injective (by omega) (by omega) first, rest⟩
    | wide width fits =>
      have := lead_injective (by omega) (by omega) (List.cons.inj same).1
      omega
  | @wide k width fits =>
    cases right with
    | direct small' =>
      have := lead_injective (by omega) (by omega) (List.cons.inj same).1
      omega
    | @wide k' width' fits' =>
      obtain ⟨first, rest⟩ := List.cons.inj same
      obtain rfl : k = k' := by
        have := lead_injective (by omega) (by omega) first
        omega
      obtain ⟨arguments, tails⟩ := List.append_inj rest (by simp)
      exact ⟨bigEndian_injective fits fits' arguments, tails⟩

theorem head_isHead (fits : n < 256 ^ 8) : IsHead major n (head major n) := by
  unfold head
  split_ifs with direct one two four
  · exact .direct direct
  · exact IsHead.wide (k := 0) (by omega) one
  · exact IsHead.wide (k := 1) (by omega) two
  · exact IsHead.wide (k := 2) (by omega) four
  · exact IsHead.wide (k := 3) (by omega) fits

theorem head_shortest (fits : n < 256 ^ 8) : Shortest (IsHead major n) (head major n) := by
  refine ⟨head_isHead fits, fun other valid short => ?_⟩
  cases valid with
  | direct small => rw [head, if_pos small]
  | @wide k width enough =>
    simp only [List.length_cons, length_bigEndian] at short
    unfold head at short ⊢
    interval_cases k <;> split_ifs at short ⊢ <;> simp_all

/-- Shortest encodings side by side are the shortest encoding of the pair. -/
theorem Shortest.append (left : Shortest Valid s) (right : Shortest Valid' t) :
    Shortest (fun u => ∃ p q, Valid p ∧ Valid' q ∧ u = p ++ q) (s ++ t) := by
  refine ⟨⟨s, t, left.1, right.1, rfl⟩, ?_⟩
  rintro other ⟨p, q, validP, validQ, rfl⟩ short
  simp only [List.length_append] at short
  rcases Nat.lt_or_ge s.length p.length with longer | fits
  · have smaller : q.length ≤ t.length := by omega
    have := right.2 q validQ smaller
    subst this
    omega
  · obtain rfl := left.2 p validP fits
    obtain rfl := right.2 q validQ (by omega)
    rfl

theorem shortest_exact (s : List UInt8) : Shortest (· = s) s := ⟨rfl, fun _ same _ => same⟩

/-- A head in front of given content. -/
theorem headed_shortest (fits : s.length < 256 ^ 8) :
    Shortest (fun u => ∃ front, IsHead major s.length front ∧ u = front ++ s) (head major s.length ++ s) := by
  refine ⟨⟨_, head_isHead fits, rfl⟩, ?_⟩
  rintro other ⟨front, valid, rfl⟩ short
  simp only [List.length_append] at short
  rw [(head_shortest fits).2 front valid (by omega)]

mutual

theorem encode_canonical : ∀ (item : Item), Fits item → Canonical item (encode item)
  | .uint n, fits => by
    unfold Canonical Encodes encode
    exact head_shortest fits
  | .bytes content, fits => by
    unfold Canonical Encodes encode
    exact headed_shortest fits
  | .text utf8, fits => by
    unfold Canonical Encodes encode
    exact headed_shortest fits
  | .array items, fits => by
    unfold Canonical Encodes encode
    obtain ⟨count, all⟩ := fits
    exact (head_shortest count).append (encodeAll_shortest items all)
  | .null, _ => by
    unfold Canonical Encodes encode
    exact shortest_exact _

theorem encodeAll_shortest : ∀ (items : List Item), FitsAll items →
    Shortest (EncodesAll items) (encodeAll items)
  | [], _ => by
    unfold EncodesAll encodeAll
    exact shortest_exact _
  | item :: items, fits => by
    unfold EncodesAll encodeAll
    exact (encode_canonical item fits.1).append (encodeAll_shortest items fits.2)

end

end PegaInfer.Cbor
