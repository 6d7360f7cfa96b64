import UnoQ.Lib.MessagePackWire

/-!
# Reading back the MessagePack wire format

`parse` undoes `bytesAll` on every list of spec-conformant encodings, whatever
follows them. Since reading never looks past what it consumes, a byte string
starts with at most one encoding, and one cut short anywhere reads as incomplete.
-/

namespace MessagePack
open BigEndian

theorem ofUtf8_utf8Bytes (s : String) : ofUtf8 (utf8Bytes s) = some s := by
  unfold ofUtf8 utf8Bytes String.fromUTF8?
  simp only [String.toUTF8_eq_toByteArray, Array.toArray_toList, Option.dite_none_right_eq_some]
  exact ⟨s.isValidUTF8, rfl⟩

theorem takeN_exact (data rest : Bytes) : takeN data.length (data ++ rest) = .ok data rest := by
  simp [takeN]

/-! ### One header -/

theorem shape_tag {k : Kind} {f : LenFormat} {n t : ℕ} (h : k.tag f n = some t) :
    t < 256 ∧ shape t = .sized k f (if f = .fix then n else 0) := by
  have fixed : ∀ base bound : ℕ, (if n < bound then some (base + n) else none) = some t →
      n < bound ∧ t = base + n := by
    intro base bound hb
    split at hb
    next hn => exact ⟨hn, (Option.some.inj hb).symm⟩
    next => contradiction
  cases k <;> cases f
  case str.fix =>
    obtain ⟨hn, rfl⟩ := fixed _ _ h
    refine ⟨by omega, ?_⟩
    unfold shape
    rw [if_neg (by omega), if_neg (by omega), if_neg (by omega), if_pos (by omega)]
    simp
  case array.fix =>
    obtain ⟨hn, rfl⟩ := fixed _ _ h
    refine ⟨by omega, ?_⟩
    unfold shape
    rw [if_neg (by omega), if_neg (by omega), if_pos (by omega)]
    simp
  case map.fix =>
    obtain ⟨hn, rfl⟩ := fixed _ _ h
    refine ⟨by omega, ?_⟩
    unfold shape
    rw [if_neg (by omega), if_pos (by omega)]
    simp
  case ext.fix =>
    rcases n with _ | _ | _ | _ | _ | _ | _ | _ | _ | _ | _ | _ | _ | _ | _ | _ | _ | n <;>
      simp only [Kind.tag, reduceCtorEq, Option.some.injEq] at h <;> subst h <;> exact ⟨by decide, rfl⟩
  all_goals
    cases h
    try exact ⟨by decide, rfl⟩

theorem node_header {k : Kind} {f : LenFormat} {n : ℕ} (h : k.Fits f n) (rest : Bytes) :
    node (header k f n ++ rest) = content k f n rest := by
  obtain ⟨htag, hlen⟩ := h
  obtain ⟨t, ht⟩ := Option.isSome_iff_exists.mp htag
  obtain ⟨hlt, hshape⟩ := shape_tag ht
  have hbyte : (UInt8.ofNat t).toNat = t := by
    rw [UInt8.toNat_ofNat']
    exact Nat.mod_eq_of_lt hlt
  simp only [header, ht, Option.getD_some, List.cons_append, node, hbyte, hshape, Shape.read]
  have htake : takeN f.width (BigEndian.encode f.width n ++ rest) =
      .ok (BigEndian.encode f.width n) rest := by
    have := takeN_exact (BigEndian.encode f.width n) rest
    rwa [encode_length] at this
  rw [htake, Res.bind_ok]
  rcases hlen with rfl | hlen
  · rfl
  · split
    · rfl
    · rw [decode_encode _ _ hlen]

theorem node_scalar {t w n : ℕ} {build : ℕ → Wire} (hlt : t < 256) (hs : shape t = .scalar w build)
    (hn : n < 256 ^ w) (rest : Bytes) :
    node (UInt8.ofNat t :: (BigEndian.encode w n ++ rest)) = .ok (.leaf (build n)) rest := by
  have hbyte : (UInt8.ofNat t).toNat = t := by
    rw [UInt8.toNat_ofNat']
    exact Nat.mod_eq_of_lt hlt
  have htake := takeN_exact (BigEndian.encode w n) rest
  rw [encode_length] at htake
  simp only [node, hbyte, hs, Shape.read, htake, Res.bind_ok, decode_encode w n hn]

theorem node_int {f : IntFormat} {i : ℤ} (h : f.Fits i) (rest : Bytes) :
    node ((Wire.int f i).bytes ++ rest) = .ok (.leaf (.int f i)) rest := by
  have wide : ∀ (t w : ℕ) (build : ℕ → Wire), t < 256 → shape t = .scalar w build →
      build (unsigned w i) = .int f i →
      node (UInt8.ofNat t :: (BigEndian.encode w (unsigned w i) ++ rest)) = .ok (.leaf (.int f i)) rest := by
    intro t w build hlt hs hb
    rw [node_scalar hlt hs (unsigned_lt w i) rest, hb]
  simp only [Wire.bytes, List.cons_append]
  cases f
  case positiveFix =>
    obtain ⟨lo, hi⟩ := h
    have hs : shape i.toNat = .scalar 0 fun _ => .int .positiveFix (i.toNat : ℕ) := by
      unfold shape
      rw [if_pos (by omega)]
    exact wide _ 0 _ (by simp only [IntFormat.tag]; omega) hs (by simp [lo])
  case negativeFix =>
    obtain ⟨lo, hi⟩ := h
    have hs : shape (256 + i).toNat =
        .scalar 0 fun _ => .int .negativeFix (((256 + i).toNat : ℤ) - 256) := by
      unfold shape
      rw [if_neg (by omega), if_neg (by omega), if_neg (by omega), if_neg (by omega),
        if_neg (by omega)]
    have hval : ((256 + i).toNat : ℤ) - 256 = i := by omega
    exact wide _ 0 _ (by simp only [IntFormat.tag]; omega) hs (by rw [hval])
  case uint8 => exact wide 0xcc 1 _ (by decide) rfl (by rw [unsigned_nonneg 1 i h.1 h.2])
  case uint16 => exact wide 0xcd 2 _ (by decide) rfl (by rw [unsigned_nonneg 2 i h.1 h.2])
  case uint32 => exact wide 0xce 4 _ (by decide) rfl (by rw [unsigned_nonneg 4 i h.1 h.2])
  case uint64 => exact wide 0xcf 8 _ (by decide) rfl (by rw [unsigned_nonneg 8 i h.1 h.2])
  case int8 => exact wide 0xd0 1 _ (by decide) rfl (by rw [signed_unsigned 1 i h.1 h.2])
  case int16 => exact wide 0xd1 2 _ (by decide) rfl (by rw [signed_unsigned 2 i h.1 h.2])
  case int32 => exact wide 0xd2 4 _ (by decide) rfl (by rw [signed_unsigned 4 i h.1 h.2])
  case int64 => exact wide 0xd3 8 _ (by decide) rfl (by rw [signed_unsigned 8 i h.1 h.2])

/-- What the header of an encoding announces: the whole value, or the number of items to read. -/
def Wire.node : Wire → Node
  | .array f items => .array f items.length
  | .map f items => .map f (items.length / 2)
  | w => .leaf w

def Wire.items : Wire → List Wire
  | .array _ items => items
  | .map _ items => items
  | _ => []

theorem node_bytes {w : Wire} (h : w.Valid) (rest : Bytes) :
    MessagePack.node (w.bytes ++ rest) = .ok w.node (bytesAll w.items ++ rest) := by
  cases w
  case nil => exact node_scalar (t := 0xc0) (w := 0) (n := 0) (by decide) rfl (by decide) rest
  case bool b =>
    cases b
    · exact node_scalar (t := 0xc2) (w := 0) (n := 0) (by decide) rfl (by decide) rest
    · exact node_scalar (t := 0xc3) (w := 0) (n := 0) (by decide) rfl (by decide) rest
  case int f i => exact node_int h rest
  case float32 bits => exact node_scalar (t := 0xca) (by decide) rfl h rest
  case float64 bits => exact node_scalar (t := 0xcb) (by decide) rfl h rest
  case str f s =>
    simp only [Wire.bytes, List.append_assoc]
    rw [node_header h]
    simp only [content, takeN_exact, Res.bind_ok, ofUtf8_utf8Bytes, Wire.node, Wire.items, bytesAll,
      List.nil_append]
  case bin f data =>
    simp only [Wire.bytes, List.append_assoc]
    rw [node_header h]
    simp only [content, takeN_exact, Res.bind_ok, Wire.node, Wire.items, bytesAll, List.nil_append]
  case ext f type data =>
    simp only [Wire.bytes, List.append_assoc]
    rw [node_header h]
    have htype : takeN 1 (type :: data ++ rest) = .ok [type] (data ++ rest) := takeN_exact [type] _
    simp only [content, htype, Res.bind_ok, takeN_exact, List.headD_cons, Wire.node, Wire.items, bytesAll,
      List.nil_append]
  case array f items =>
    simp only [Wire.bytes, List.append_assoc]
    rw [node_header h.1]
    rfl
  case map f items =>
    simp only [Wire.bytes, List.append_assoc]
    rw [node_header h.1]
    rfl

/-! ### Whole values -/

theorem nodes_pos (w : Wire) : 0 < w.nodes := by
  cases w <;> simp [Wire.nodes]

theorem nodes_eq (w : Wire) : w.nodes = 1 + nodesAll w.items := by
  cases w <;> simp [Wire.nodes, Wire.items, nodesAll]

theorem valid_items {w : Wire} (h : w.Valid) : ∀ x ∈ w.items, x.Valid := by
  cases w
  case array f items => exact (validAll_iff items).mp h.2
  case map f items => exact (validAll_iff items).mp h.2.2
  all_goals
    intro x hx
    simp [Wire.items] at hx

/-- The parser undoes the layout: enough fuel recovers every list of encodings and stops exactly
at its end. The induction is on the fuel, which a container shares out between its items and the
values after it. -/
theorem parse_bytesAll (fuel : ℕ) : ∀ (ws : List Wire) (rest : Bytes), (∀ w ∈ ws, w.Valid) →
    nodesAll ws ≤ fuel → parse fuel ws.length (bytesAll ws ++ rest) = .ok ws rest := by
  induction fuel with
  | zero =>
    intro ws rest _ hf
    cases ws with
    | nil => rfl
    | cons w ws =>
      have hpos := nodes_pos w
      simp only [nodesAll] at hf
      omega
  | succ fuel ih =>
    intro ws rest hv hf
    cases ws with
    | nil => rfl
    | cons w ws =>
      have hw : w.Valid := hv w (List.mem_cons_self ..)
      have hws : ∀ x ∈ ws, x.Valid := fun x hx => hv x (List.mem_cons_of_mem _ hx)
      have hitems := valid_items hw
      simp only [nodesAll, nodes_eq w] at hf
      have hsplit : bytesAll (w :: ws) ++ rest = w.bytes ++ (bytesAll ws ++ rest) := by
        simp only [bytesAll, List.append_assoc]
      have tail := ih ws rest hws (by omega)
      have inner := ih w.items (bytesAll ws ++ rest) hitems (by omega)
      simp only [List.length_cons, parse, hsplit, node_bytes hw, Res.bind_ok]
      cases w
      case array f items =>
        simp only [Wire.node, Wire.items] at inner ⊢
        simp only [inner, tail, Res.bind_ok]
      case map f items =>
        simp only [Wire.node, Wire.items] at inner ⊢
        have hlen : 2 * (items.length / 2) = items.length := by
          have heven := hw.2.1
          omega
        simp only [hlen, inner, tail, Res.bind_ok]
      all_goals simp only [Wire.node, Wire.items, bytesAll, List.nil_append, tail, Res.bind_ok]

theorem nodesAll_le_length (fuel : ℕ) : ∀ ws : List Wire, nodesAll ws ≤ fuel →
    nodesAll ws ≤ (bytesAll ws).length := by
  induction fuel with
  | zero =>
    intro ws hf
    omega
  | succ fuel ih =>
    intro ws hf
    cases ws with
    | nil => simp [nodesAll]
    | cons w ws =>
      have hpos := nodes_pos w
      simp only [nodesAll] at hf ⊢
      have tail := ih ws (by omega)
      have hitems := nodes_eq w
      have inner := ih w.items (by omega)
      have hbytes : 1 + (bytesAll w.items).length ≤ w.bytes.length := by
        cases w <;> simp [Wire.bytes, Wire.items, bytesAll, header] <;> omega
      simp only [bytesAll, List.length_append]
      omega

def parseOne (bs : Bytes) : Res Wire :=
  match parse bs.length 1 bs with
  | .ok (w :: _) rest => .ok w rest
  | .ok [] _ => .malformed
  | .incomplete => .incomplete
  | .malformed => .malformed

theorem parseOne_bytes {w : Wire} (h : w.Valid) (rest : Bytes) :
    parseOne (w.bytes ++ rest) = .ok w rest := by
  have hn := nodesAll_le_length _ [w] le_rfl
  have hb : bytesAll [w] = w.bytes := by simp [bytesAll]
  rw [hb] at hn
  have hp := parse_bytesAll (w.bytes ++ rest).length [w] rest (by simpa using h) (by
    rw [List.length_append]
    omega)
  rw [hb] at hp
  simp only [List.length_cons, List.length_nil, Nat.zero_add] at hp
  simp only [parseOne, hp]

/-! ### Reading does not look ahead -/

/-- Here `r'` is the outcome of `r` on the same input with `u` after it, where `r` had an outcome. -/
structure Res.Extends {α : Type} (u : Bytes) (r r' : Res α) : Prop where
  ok : ∀ x rest, r = .ok x rest → r' = .ok x (rest ++ u)
  malformed : r = .malformed → r' = .malformed

theorem Res.Extends.of_ok {α : Type} {u : Bytes} (x : α) (rest : Bytes) :
    Res.Extends u (.ok x rest) (.ok x (rest ++ u)) :=
  ⟨fun _ _ h => by rw [Res.ok.injEq] at h; rw [h.1, h.2], nofun⟩

theorem Res.Extends.of_incomplete {α : Type} {u : Bytes} (r' : Res α) :
    Res.Extends u .incomplete r' :=
  ⟨nofun, nofun⟩

theorem Res.Extends.of_malformed {α : Type} {u : Bytes} :
    Res.Extends u (.malformed : Res α) .malformed :=
  ⟨nofun, fun _ => rfl⟩

theorem Res.Extends.bind {α β : Type} {u : Bytes} {r r' : Res α} {f g : α → Bytes → Res β}
    (h : Res.Extends u r r') (hf : ∀ x rest, Res.Extends u (f x rest) (g x (rest ++ u))) :
    Res.Extends u (r.bind f) (r'.bind g) := by
  cases r with
  | ok x rest =>
    rw [h.ok x rest rfl]
    exact hf x rest
  | incomplete => exact .of_incomplete _
  | malformed =>
    rw [h.malformed rfl]
    exact .of_malformed

theorem takeN_append (n : ℕ) (bs u : Bytes) : Res.Extends u (takeN n bs) (takeN n (bs ++ u)) := by
  by_cases hn : n ≤ bs.length
  · have hlen : n ≤ (bs ++ u).length := by
      rw [List.length_append]
      omega
    unfold takeN
    rw [if_pos hn, if_pos hlen, List.take_append_of_le_length hn, List.drop_append_of_le_length hn]
    exact .of_ok _ _
  · unfold takeN
    rw [if_neg hn]
    exact .of_incomplete _

theorem content_append (k : Kind) (f : LenFormat) (n : ℕ) (bs u : Bytes) :
    Res.Extends u (content k f n bs) (content k f n (bs ++ u)) := by
  cases k
  case str =>
    refine (takeN_append n bs u).bind fun data rest => ?_
    cases ofUtf8 data with
    | none => exact .of_malformed
    | some s => exact .of_ok _ _
  case bin => exact (takeN_append n bs u).bind fun _ _ => .of_ok _ _
  case ext =>
    exact (takeN_append 1 bs u).bind fun _ rest => (takeN_append n rest u).bind fun _ _ => .of_ok _ _
  case array => exact .of_ok _ _
  case map => exact .of_ok _ _

theorem node_append (bs u : Bytes) : Res.Extends u (node bs) (node (bs ++ u)) := by
  cases bs with
  | nil => exact .of_incomplete _
  | cons t rest =>
    simp only [node, List.cons_append]
    cases shape t.toNat with
    | invalid => exact .of_malformed
    | scalar w build => exact (takeN_append w rest u).bind fun _ _ => .of_ok _ _
    | sized k f inTag => exact (takeN_append f.width rest u).bind fun _ r => content_append k f _ r u

theorem parse_append {u : Bytes} (fuel : ℕ) : ∀ (more n : ℕ) (bs : Bytes),
    Res.Extends u (parse fuel n bs) (parse (fuel + more) n (bs ++ u)) := by
  induction fuel with
  | zero =>
    intro more n bs
    cases n with
    | zero => simpa only [parse] using .of_ok _ _
    | succ n => exact .of_incomplete _
  | succ fuel ih =>
    intro more n bs
    cases n with
    | zero => simpa only [parse] using .of_ok _ _
    | succ n =>
      have hfuel : fuel + 1 + more = fuel + more + 1 := by omega
      have tail : ∀ (w : Wire) (rest : Bytes),
          Res.Extends u ((parse fuel n rest).bind fun ws r => .ok (w :: ws) r)
            ((parse (fuel + more) n (rest ++ u)).bind fun ws r => .ok (w :: ws) r) :=
        fun w rest => (ih more n rest).bind fun _ _ => .of_ok _ _
      rw [hfuel]
      simp only [parse]
      refine (node_append bs u).bind fun x rest => ?_
      cases x with
      | leaf w => exact tail w rest
      | array f m => exact (ih more m rest).bind fun items r => tail (.array f items) r
      | map f m => exact (ih more (2 * m) rest).bind fun items r => tail (.map f items) r

/-- Cut short anywhere, an encoding reads as incomplete: never as another value, never as an
error. -/
theorem parseOne_truncated {w : Wire} (h : w.Valid) {t u : Bytes} (hu : u ≠ []) (hw : w.bytes = t ++ u) :
    parseOne t = .incomplete := by
  have whole : parse (t.length + u.length) 1 (t ++ u) = .ok [w] [] := by
    have hn := nodesAll_le_length _ [w] le_rfl
    have hb : bytesAll [w] = t ++ u := by simp [bytesAll, hw]
    rw [hb, List.length_append] at hn
    have hp := parse_bytesAll (t.length + u.length) [w] [] (by simpa using h) hn
    rw [hb, List.append_nil] at hp
    exact hp
  have extended := parse_append (u := u) t.length u.length 1 t
  unfold parseOne
  cases hp : parse t.length 1 t with
  | incomplete => rfl
  | malformed =>
    rw [extended.malformed hp] at whole
    contradiction
  | ok ws r =>
    rw [extended.ok ws r hp] at whole
    simp only [Res.ok.injEq, List.append_eq_nil_iff] at whole
    exact absurd whole.2.2 hu

/-- Reads values until the input ends or one cannot be read or is refused by `accept`; the flag
says that the reading failed. -/
def parseAll (accept : Wire → Bool) : ℕ → Bytes → List Wire × Bool
  | _, [] => ([], false)
  | 0, _ :: _ => ([], true)
  | fuel + 1, bs =>
    match parseOne bs with
    | .ok w rest =>
      if accept w then
        let r := parseAll accept fuel rest
        (w :: r.1, r.2)
      else ([], true)
    | _ => ([], true)

theorem parseAll_cons (accept : Wire → Bool) (fuel : ℕ) {bs : Bytes} (hne : bs ≠ []) :
    parseAll accept (fuel + 1) bs =
      match parseOne bs with
      | .ok w rest =>
        if accept w then
          (w :: (parseAll accept fuel rest).1, (parseAll accept fuel rest).2)
        else ([], true)
      | _ => ([], true) := by
  cases bs with
  | nil => contradiction
  | cons b bs => rfl

/-- What an input may end with: nothing, or the start of one more encoding. -/
def Truncated (t : Bytes) : Prop := t = [] ∨ ∃ w u, Wire.Valid w ∧ u ≠ [] ∧ w.bytes = t ++ u

theorem parseAll_bytesAll {accept : Wire → Bool} {t : Bytes} (ht : Truncated t) (fuel : ℕ) :
    ∀ ws : List Wire, (∀ w ∈ ws, w.Valid) → (∀ w ∈ ws, accept w = true) → ws.length < fuel →
      parseAll accept fuel (bytesAll ws ++ t) = (ws, !t.isEmpty) := by
  induction fuel with
  | zero =>
    intro ws _ _ hf
    omega
  | succ fuel ih =>
    intro ws hv ha hf
    cases ws with
    | nil =>
      cases t with
      | nil => rfl
      | cons b t =>
        rcases ht with ht | ⟨w, u, hw, hu, hb⟩
        · contradiction
        · simp only [bytesAll, List.nil_append, parseAll, parseOne_truncated hw hu hb, List.isEmpty_cons,
            Bool.not_false]
    | cons w ws =>
      have hw : w.Valid := hv w (List.mem_cons_self ..)
      have hacc : accept w = true := ha w (List.mem_cons_self ..)
      have rest := ih ws (fun x hx => hv x (List.mem_cons_of_mem _ hx))
        (fun x hx => ha x (List.mem_cons_of_mem _ hx)) (by simpa using hf)
      have hsplit : bytesAll (w :: ws) ++ t = w.bytes ++ (bytesAll ws ++ t) := by
        simp only [bytesAll, List.append_assoc]
      rw [hsplit, parseAll_cons accept fuel (by simp [bytes_ne_nil]), parseOne_bytes hw]
      simp only [hacc, if_true, rest]

end MessagePack
