import UnoQ.Lib.BigEndian

/-!
# Length-prefixed fields

Integers of a fixed width, and byte strings with their length in front. A run of such
fields can be taken apart in one way only: where one ends does not depend on what
follows.
-/

namespace BigEndian

/-- A byte string behind its length, in four bytes. -/
def framed (bs : Bytes) : Bytes := encode 4 bs.length ++ bs

inductive Field
  | int (w n : ℕ)
  | str (bs : Bytes)
  deriving DecidableEq

namespace Field

def bytes : Field → Bytes
  | .int w n => encode w n
  | .str bs => framed bs

/-- The value can be told from its bytes. -/
def Fits : Field → Prop
  | .int w n => n < 256 ^ w
  | .str bs => bs.length < 256 ^ 4

instance : ∀ f : Field, Decidable f.Fits
  | .int w n => inferInstanceAs (Decidable (n < 256 ^ w))
  | .str bs => inferInstanceAs (Decidable (bs.length < 256 ^ 4))

inductive SameKind : Field → Field → Prop
  | int (w n m : ℕ) : SameKind (.int w n) (.int w m)
  | str (as bs : Bytes) : SameKind (.str as) (.str bs)

end Field

def layout : List Field → Bytes
  | [] => []
  | f :: fs => f.bytes ++ layout fs

@[simp] theorem framed_length (bs : Bytes) : (framed bs).length = 4 + bs.length := by
  simp [framed]

theorem layout_append (fs gs : List Field) : layout (fs ++ gs) = layout fs ++ layout gs := by
  induction fs with
  | nil => rfl
  | cons f fs ih => simp only [List.cons_append, layout, ih, List.append_assoc]

theorem encode_append_inj {w n m : ℕ} {x y : Bytes} (hn : n < 256 ^ w) (hm : m < 256 ^ w)
    (h : encode w n ++ x = encode w m ++ y) : n = m ∧ x = y := by
  obtain ⟨hl, hr⟩ := List.append_inj h (by simp)
  have hd := congrArg decode hl
  rw [decode_encode w n hn, decode_encode w m hm] at hd
  exact ⟨hd, hr⟩

theorem framed_append_inj {as bs x y : Bytes} (ha : as.length < 256 ^ 4) (hb : bs.length < 256 ^ 4)
    (h : framed as ++ x = framed bs ++ y) : as = bs ∧ x = y := by
  simp only [framed, List.append_assoc] at h
  obtain ⟨hlen, hrest⟩ := encode_append_inj ha hb h
  exact List.append_inj hrest hlen

theorem Field.append_inj {f g : Field} {x y : Bytes} (hk : SameKind f g) (hf : f.Fits) (hg : g.Fits)
    (h : f.bytes ++ x = g.bytes ++ y) : f = g ∧ x = y := by
  cases hk with
  | int w n m =>
    obtain ⟨hn, hx⟩ := encode_append_inj hf hg h
    exact ⟨congrArg (Field.int w) hn, hx⟩
  | str as bs =>
    obtain ⟨ha, hx⟩ := framed_append_inj hf hg h
    exact ⟨congrArg Field.str ha, hx⟩

/-- Two runs of fields of the same kinds that make the same bytes are the same, and so is what follows
them. -/
theorem layout_append_inj {fs gs : List Field} (hk : List.Forall₂ Field.SameKind fs gs) {x y : Bytes}
    (hf : ∀ f ∈ fs, f.Fits) (hg : ∀ g ∈ gs, g.Fits) (h : layout fs ++ x = layout gs ++ y) :
    fs = gs ∧ x = y := by
  induction hk with
  | nil => exact ⟨rfl, h⟩
  | cons hkind _ ih =>
    simp only [layout, List.append_assoc] at h
    obtain ⟨hhead, htail⟩ := Field.append_inj hkind (hf _ List.mem_cons_self) (hg _ List.mem_cons_self) h
    obtain ⟨hrest, hx⟩ := ih (fun f hm => hf f (List.mem_cons_of_mem _ hm))
      (fun g hm => hg g (List.mem_cons_of_mem _ hm)) htail
    exact ⟨by rw [hhead, hrest], hx⟩

/-! ### Lists of strings -/

def strings (l : List Bytes) : Bytes := layout (l.map .str)

theorem strings_cons (bs : Bytes) (l : List Bytes) : strings (bs :: l) = framed bs ++ strings l := rfl

theorem length_le_strings {l : List Bytes} {bs : Bytes} (h : bs ∈ l) :
    bs.length ≤ (strings l).length := by
  induction l with
  | nil => contradiction
  | cons a l ih =>
    rw [strings_cons, List.length_append, framed_length]
    rcases List.mem_cons.mp h with rfl | hm
    · omega
    · have hle := ih hm
      omega

/-- A list of strings that fits a field can be read back from it. -/
theorem strings_inj {l m : List Bytes} (hl : (strings l).length < 256 ^ 4)
    (h : strings l = strings m) : l = m := by
  induction l generalizing m with
  | nil =>
    cases m with
    | nil => rfl
    | cons b m =>
      have hlen := congrArg List.length h
      rw [strings_cons, List.length_append, framed_length] at hlen
      simp only [strings, List.map_nil, layout, List.length_nil] at hlen
      omega
  | cons a l ih =>
    cases m with
    | nil =>
      have hlen := congrArg List.length h
      rw [strings_cons, List.length_append, framed_length] at hlen
      simp only [strings, List.map_nil, layout, List.length_nil] at hlen
      omega
    | cons b m =>
      have ha : a.length < 256 ^ 4 := Nat.lt_of_le_of_lt (length_le_strings List.mem_cons_self) hl
      have hb : b.length < 256 ^ 4 :=
        Nat.lt_of_le_of_lt (length_le_strings List.mem_cons_self) (h ▸ hl)
      rw [strings_cons, strings_cons] at h
      obtain ⟨hab, hrest⟩ := framed_append_inj ha hb h
      rw [strings_cons, List.length_append] at hl
      rw [hab, ih (by omega) hrest]

/-- Names and values in turn. -/
def alternating : List (Bytes × Bytes) → List Bytes
  | [] => []
  | p :: ps => p.1 :: p.2 :: alternating ps

theorem alternating_inj {ps qs : List (Bytes × Bytes)} (h : alternating ps = alternating qs) :
    ps = qs := by
  induction ps generalizing qs with
  | nil =>
    cases qs with
    | nil => rfl
    | cons q qs => contradiction
  | cons p ps ih =>
    cases qs with
    | nil => contradiction
    | cons q qs =>
      injection h with hname hrest
      injection hrest with hvalue hrest
      rw [Prod.ext hname hvalue, ih hrest]

end BigEndian
