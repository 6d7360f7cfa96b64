import UnoQ.Lib.MessagePackParse
import UnoQ.Lib.SequentialDecoding

/-!
# Reading MessagePack item by item

A successful read depends on nothing but the bytes it consumes, so reading one value after the other
is a sequential decoder, for every choice of the values that are accepted.
-/

namespace MessagePack
open BigEndian SequentialDecoding

variable {α β : Type}

/-! ### What a read consumes -/

/-- More input does not change a successful read. -/
def Local (f : Bytes → Res α) : Prop := ∀ bs u, Res.Extends u (f bs) (f (bs ++ u))

/-- A successful read succeeds on the bytes that it consumes. -/
def Exactly (f : Bytes → Res α) : Prop :=
  ∀ bs x rest, f bs = .ok x rest → ∃ front, bs = front ++ rest ∧ f front = .ok x []

theorem exactly_ok (x : α) : Exactly fun bs => .ok x bs := by
  intro bs y rest h
  cases h
  exact ⟨[], rfl, rfl⟩

theorem Exactly.bind {f : Bytes → Res α} {g : α → Bytes → Res β} (hf : Exactly f) (hl : Local f)
    (hg : ∀ a, Exactly (g a)) : Exactly fun bs => (f bs).bind g := by
  intro bs y rest h
  obtain ⟨a, mid, hr, hrest⟩ := Res.bind_eq_ok.mp h
  obtain ⟨front, rfl, hfront⟩ := hf bs a mid hr
  obtain ⟨front', rfl, hfront'⟩ := hg a mid y rest hrest
  have hmore := (hl front front').ok a [] hfront
  refine ⟨front ++ front', (List.append_assoc ..).symm, ?_⟩
  dsimp only
  rw [hmore, Res.bind_ok, List.nil_append]
  exact hfront'

theorem exactly_takeN (n : ℕ) : Exactly (takeN n) := by
  intro bs x rest h
  unfold takeN at h
  split at h
  next hn =>
    cases h
    have hlen : (bs.take n).length = n := by
      rw [List.length_take]
      omega
    have hall := takeN_exact (bs.take n) []
    rw [hlen, List.append_nil] at hall
    exact ⟨bs.take n, (List.take_append_drop n bs).symm, hall⟩
  next => contradiction

theorem exactly_content (k : Kind) (f : LenFormat) (n : ℕ) : Exactly (content k f n) := by
  cases k
  case str =>
    refine (exactly_takeN n).bind (takeN_append n) fun data => ?_
    cases hs : ofUtf8 data with
    | none =>
      intro bs x rest h
      contradiction
    | some s => exact exactly_ok _
  case bin => exact (exactly_takeN n).bind (takeN_append n) fun _ => exactly_ok _
  case ext =>
    refine (exactly_takeN 1).bind (takeN_append 1) fun type => ?_
    exact (exactly_takeN n).bind (takeN_append n) fun _ => exactly_ok _
  case array => exact exactly_ok _
  case map => exact exactly_ok _

theorem exactly_node : Exactly node := by
  intro bs x rest h
  cases bs with
  | nil => contradiction
  | cons t bs =>
    have hread : Exactly (shape t.toNat).read := by
      cases shape t.toNat with
      | invalid =>
        intro bs x rest h
        contradiction
      | scalar w build => exact (exactly_takeN w).bind (takeN_append w) fun _ => exactly_ok _
      | sized k f inTag =>
        exact (exactly_takeN f.width).bind (takeN_append f.width) fun _ => exactly_content k f _
    obtain ⟨front, rfl, hfront⟩ := hread bs x rest h
    exact ⟨t :: front, rfl, hfront⟩

theorem node_length {bs rest : Bytes} {x : Node} (h : node bs = .ok x rest) :
    rest.length < bs.length := by
  obtain ⟨front, rfl, hfront⟩ := exactly_node bs x rest h
  have hne : front ≠ [] := by
    rintro rfl
    contradiction
  have hpos := List.length_pos_iff.mpr hne
  rw [List.length_append]
  omega

theorem exactly_parse (fuel : ℕ) : ∀ n : ℕ, Exactly (parse fuel n) := by
  induction fuel with
  | zero =>
    intro n
    cases n with
    | zero => simpa only [parse] using exactly_ok _
    | succ n =>
      intro bs x rest h
      contradiction
  | succ fuel ih =>
    intro n
    cases n with
    | zero => simpa only [parse] using exactly_ok _
    | succ n =>
      have hlocal : ∀ m, Local (parse fuel m) := fun m bs u => parse_append fuel 0 m bs
      have tail : ∀ w, Exactly fun rest => (parse fuel n rest).bind fun ws r => .ok (w :: ws) r :=
        fun w => (ih n).bind (hlocal n) fun _ => exactly_ok _
      simp only [parse]
      refine exactly_node.bind node_append fun x => ?_
      cases x with
      | leaf w => exact tail w
      | array f m => exact (ih m).bind (hlocal m) fun items => tail (.array f items)
      | map f m => exact (ih (2 * m)).bind (hlocal (2 * m)) fun items => tail (.map f items)

theorem parse_length {fuel n : ℕ} {bs rest : Bytes} {ws : List Wire}
    (h : parse fuel n bs = .ok ws rest) : rest.length ≤ bs.length := by
  obtain ⟨front, rfl, -⟩ := exactly_parse fuel n bs ws rest h
  rw [List.length_append]
  omega

/-- The length of the input is fuel enough for whatever can be read at all. -/
theorem parse_fuel (fuel : ℕ) : ∀ {fuel' n : ℕ} {bs rest : Bytes} {ws : List Wire},
    parse fuel n bs = .ok ws rest → bs.length ≤ fuel' → parse fuel' n bs = .ok ws rest := by
  induction fuel with
  | zero =>
    intro fuel' n bs rest ws h hlen
    cases n with
    | zero => simpa only [parse] using h
    | succ n => contradiction
  | succ fuel ih =>
    intro fuel' n bs rest ws h hlen
    cases n with
    | zero => simpa only [parse] using h
    | succ n =>
      simp only [parse] at h
      obtain ⟨x, mid, hnode, h⟩ := Res.bind_eq_ok.mp h
      have hmid := node_length hnode
      obtain ⟨fuel', rfl⟩ : ∃ f, fuel' = f + 1 := ⟨fuel' - 1, by omega⟩
      have tail : ∀ (w : Wire) (r : Bytes), r.length ≤ mid.length →
          ((parse fuel n r).bind fun ws r => .ok (w :: ws) r) = .ok ws rest →
          ((parse fuel' n r).bind fun ws r => .ok (w :: ws) r) = .ok ws rest := by
        intro w r hr hbind
        obtain ⟨vs, r', hp, hvs⟩ := Res.bind_eq_ok.mp hbind
        exact Res.bind_eq_ok.mpr ⟨vs, r', ih hp (by omega), hvs⟩
      have inner : ∀ (build : List Wire → Wire) (m : ℕ),
          ((parse fuel m mid).bind fun items r =>
            (parse fuel n r).bind fun ws r => .ok (build items :: ws) r) = .ok ws rest →
          ((parse fuel' m mid).bind fun items r =>
            (parse fuel' n r).bind fun ws r => .ok (build items :: ws) r) = .ok ws rest := by
        intro build m hbind
        obtain ⟨items, r, hp, htail⟩ := Res.bind_eq_ok.mp hbind
        exact Res.bind_eq_ok.mpr ⟨items, r, ih hp (by omega), tail _ _ (parse_length hp) htail⟩
      rw [parse, hnode, Res.bind_ok]
      cases x with
      | leaf w => exact tail w mid le_rfl h
      | array f m => exact inner (.array f) m h
      | map f m => exact inner (.map f) (2 * m) h

/-! ### One value -/

theorem parse_of_parseOne {bs rest : Bytes} {w : Wire} (h : parseOne bs = .ok w rest) :
    ∃ ws, parse bs.length 1 bs = .ok (w :: ws) rest := by
  unfold parseOne at h
  cases hp : parse bs.length 1 bs with
  | ok ws r =>
    rw [hp] at h
    cases ws with
    | nil => contradiction
    | cons v vs =>
      cases h
      exact ⟨vs, rfl⟩
  | incomplete =>
    rw [hp] at h
    contradiction
  | malformed =>
    rw [hp] at h
    contradiction

theorem exactly_parseOne : Exactly parseOne := by
  intro bs w rest h
  obtain ⟨ws, hp⟩ := parse_of_parseOne h
  obtain ⟨front, rfl, hfront⟩ := exactly_parse _ 1 bs _ rest hp
  have hown := parse_fuel _ hfront (le_refl front.length)
  refine ⟨front, rfl, ?_⟩
  unfold parseOne
  rw [hown]

theorem parseOne_more {bs : Bytes} {w : Wire} (h : parseOne bs = .ok w []) (u : Bytes) :
    parseOne (bs ++ u) = .ok w u := by
  obtain ⟨ws, hp⟩ := parse_of_parseOne h
  have hmore := (parse_append (u := u) bs.length u.length 1 bs).ok _ _ hp
  unfold parseOne
  rw [List.length_append, hmore, List.nil_append]

theorem parseOne_length {bs rest : Bytes} {w : Wire} (h : parseOne bs = .ok w rest) :
    rest.length < bs.length := by
  obtain ⟨front, rfl, hfront⟩ := exactly_parseOne bs w rest h
  have hne : front ≠ [] := by
    rintro rfl
    contradiction
  have hpos := List.length_pos_iff.mpr hne
  rw [List.length_append]
  omega

/-! ### All values -/

theorem parseAll_fuel (accept : Wire → Bool) (fuel : ℕ) : ∀ (fuel' : ℕ) {bs : Bytes},
    bs.length < fuel → bs.length < fuel' → parseAll accept fuel bs = parseAll accept fuel' bs := by
  induction fuel with
  | zero =>
    intro fuel' bs hlt
    omega
  | succ fuel ih =>
    intro fuel' bs hlt hlt'
    obtain ⟨fuel', rfl⟩ : ∃ f, fuel' = f + 1 := ⟨fuel' - 1, by omega⟩
    by_cases hne : bs = []
    · subst hne
      rfl
    · rw [parseAll_cons accept fuel hne, parseAll_cons accept fuel' hne]
      cases hp : parseOne bs with
      | ok w rest =>
        have hrest := parseOne_length hp
        dsimp only
        rw [ih fuel' (by omega) (by omega)]
      | incomplete => rfl
      | malformed => rfl

/-- The values at the front of an input, and whether the reading stopped before its end. -/
def readAll (accept : Wire → Bool) (bs : Bytes) : List Wire × Bool :=
  parseAll accept (bs.length + 1) bs

theorem readAll_cons (accept : Wire → Bool) {bs : Bytes} (hne : bs ≠ []) :
    readAll accept bs =
      match parseOne bs with
      | .ok w rest =>
        if accept w then (w :: (readAll accept rest).1, (readAll accept rest).2) else ([], true)
      | _ => ([], true) := by
  unfold readAll
  rw [parseAll_cons accept _ hne]
  cases hp : parseOne bs with
  | ok w rest =>
    have hrest := parseOne_length hp
    dsimp only
    rw [parseAll_fuel accept bs.length (rest.length + 1) hrest (by omega)]
  | incomplete => rfl
  | malformed => rfl

theorem accepts_readAll (accept : Wire → Bool) {bs : Bytes} {w : Wire} :
    Accepts (readAll accept) bs w ↔ parseOne bs = .ok w [] ∧ accept w = true := by
  have hnil : ∀ rest : Bytes, readAll accept rest = ([], false) → rest = [] := by
    intro rest hr
    by_contra hne
    rw [readAll_cons accept hne] at hr
    split at hr
    · split at hr <;> simp at hr
    · simp at hr
  unfold Accepts
  constructor
  · intro h
    have hne : bs ≠ [] := by
      rintro rfl
      simp [readAll, parseAll] at h
    rw [readAll_cons accept hne] at h
    split at h
    next v rest hp =>
      split at h
      next hacc =>
        simp only [Prod.mk.injEq, List.cons.injEq] at h
        obtain ⟨⟨rfl, hrest⟩, hflag⟩ := h
        have hend := hnil rest (Prod.ext hrest hflag)
        subst hend
        exact ⟨hp, hacc⟩
      next => simp at h
    next => simp at h
  · rintro ⟨hp, hacc⟩
    have hne : bs ≠ [] := by
      rintro rfl
      contradiction
    rw [readAll_cons accept hne, hp]
    simp [hacc, readAll, parseAll]

theorem sequential_readAll (accept : Wire → Bool) : Sequential (readAll accept) where
  nil := rfl
  next item rest w hw := by
    obtain ⟨hp, hacc⟩ := (accepts_readAll accept).mp hw
    have hne : item ++ rest ≠ [] := by
      intro hnil
      rw [(List.append_eq_nil_iff.mp hnil).1] at hp
      contradiction
    rw [readAll_cons accept hne, parseOne_more hp rest]
    simp [hacc]
  stops t hne hopen := by
    rw [readAll_cons accept hne]
    cases hp : parseOne t with
    | ok w rest =>
      obtain ⟨front, heq, hfront⟩ := exactly_parseOne t w rest hp
      have hrefused : accept w ≠ true := fun hacc =>
        hopen front rest w heq ((accepts_readAll accept).mpr ⟨hfront, hacc⟩)
      simp [hrefused]
    | incomplete => rfl
    | malformed => rfl

end MessagePack
