import UnoQ.Lib.LengthPrefixed
import UnoQ.Ssh.CertParser

/-!
# The layout of a certificate

A certificate in its wire format is a run of fields. The parser accepts exactly the byte
strings that begin with a user certificate, and what it returns is a function of the
fields; all of them but the last are what the CA signs.
-/

namespace UnoQ.Ssh
open BigEndian

theorem bind_ok {α β : Type} {x : Except String α} {f : α → Except String β} {b : β} :
    (x >>= f) = .ok b ↔ ∃ a, x = .ok a ∧ f a = .ok b := by
  cases x with
  | error e => simp [bind, Except.bind]
  | ok a => simp [bind, Except.bind]

theorem check_ok {α β : Type} {c : Prop} [Decidable c] {message : String}
    {f : β → Except String α} {x : Except String α} {a : α} :
    (if c then throw message >>= f else x) = .ok a ↔ ¬ c ∧ x = .ok a := by
  split
  next hc => simp [hc, bind, Except.bind, throw, throwThe, MonadExceptOf.throw]
  next hc => simp [hc]

namespace Reader

def rest (r : Reader) : Bytes := r.buf.drop r.off

/-- Between `r` and `r'` these fields have been read. -/
structure Read (r : Reader) (fs : List Field) (r' : Reader) : Prop where
  buf : r'.buf = r.buf
  rest : r.rest = layout fs ++ r'.rest
  fits : ∀ f ∈ fs, f.Fits

theorem new_rest (buf : Bytes) : (new buf).rest = buf := rfl

theorem rest_length (r : Reader) : r.rest.length = r.left := List.length_drop

theorem done_iff (r : Reader) : r.done = true ↔ r.rest = [] := by
  unfold done rest
  rw [decide_eq_true_iff, List.drop_eq_nil_iff]

theorem ext_rest {r r' : Reader} (hbuf : r.buf = r'.buf) (hrest : r.rest = r'.rest) : r = r' := by
  have hlen := congrArg List.length hrest
  rw [rest_length, rest_length] at hlen
  obtain ⟨buf, off, hoff⟩ := r
  obtain ⟨buf', off', hoff'⟩ := r'
  simp only [left] at hbuf hlen
  subst hbuf
  have hsame : off = off' := by omega
  subst hsame
  rfl

theorem take_iff {r r' : Reader} {n : ℕ} {bs : Bytes} :
    r.take n = .ok (bs, r') ↔ r'.buf = r.buf ∧ bs.length = n ∧ r.rest = bs ++ r'.rest := by
  constructor
  · intro h
    obtain ⟨hbuf, hoff, rfl⟩ := take_spec h
    have hwithin := r'.within
    rw [hbuf, hoff] at hwithin
    refine ⟨hbuf, ?_, ?_⟩
    · rw [List.length_take, List.length_drop]
      omega
    · unfold rest
      rw [hbuf, hoff, ← List.drop_drop, List.take_append_drop]
  · rintro ⟨hbuf, rfl, hrest⟩
    have hlen := congrArg List.length hrest
    have hwithin := r.within
    rw [List.length_append, rest_length, left] at hlen
    have hroom : r.off + bs.length ≤ r.buf.length := by omega
    have hsplit : r.buf.drop r.off = bs ++ r'.rest := hrest
    unfold take
    rw [dif_pos hroom, hsplit, List.take_left]
    have hnext : (⟨r.buf, r.off + bs.length, hroom⟩ : Reader) = r' := by
      refine ext_rest hbuf.symm ?_
      change r.buf.drop (r.off + bs.length) = r'.rest
      rw [← List.drop_drop, hsplit, List.drop_left]
    rw [hnext]

theorem Read.refl (r : Reader) : Read r [] r :=
  ⟨rfl, rfl, fun _ hf => absurd hf List.not_mem_nil⟩

theorem Read.trans {r r' r'' : Reader} {fs gs : List Field} (h : Read r fs r') (h' : Read r' gs r'') :
    Read r (fs ++ gs) r'' := by
  refine ⟨h'.buf.trans h.buf, ?_, fun f hf => ?_⟩
  · rw [h.rest, h'.rest, layout_append, List.append_assoc]
  · rcases List.mem_append.mp hf with hf | hf
    · exact h.fits f hf
    · exact h'.fits f hf

/-- A reader with a field in front of it can read it. -/
theorem exists_read {r : Reader} {f : Field} {tail : Bytes} (hf : f.Fits)
    (h : r.rest = f.bytes ++ tail) : ∃ r', Read r [f] r' ∧ r'.rest = tail := by
  obtain ⟨bs, r', hok, hbs⟩ : ∃ bs r', r.take f.bytes.length = .ok (bs, r') ∧ bs = f.bytes := by
    have hlen := congrArg List.length h
    have hwithin := r.within
    rw [List.length_append, rest_length, left] at hlen
    have hroom : r.off + f.bytes.length ≤ r.buf.length := by omega
    refine ⟨_, _, dif_pos hroom, ?_⟩
    rw [show r.buf.drop r.off = f.bytes ++ tail from h, List.take_left]
  obtain ⟨hbuf, -, hrest⟩ := take_iff.mp hok
  refine ⟨r', ⟨hbuf, ?_, fun g hg => ?_⟩, ?_⟩
  · rw [hrest, hbs, layout, layout, List.append_nil]
  · rw [List.mem_singleton.mp hg]
    exact hf
  · rw [h, hbs] at hrest
    exact (List.append_cancel_left hrest).symm

theorem exists_reads {fs : List Field} : ∀ {r : Reader} {tail : Bytes}, (∀ f ∈ fs, f.Fits) →
    r.rest = layout fs ++ tail → ∃ r', Read r fs r' ∧ r'.rest = tail := by
  induction fs with
  | nil =>
    intro r tail _ h
    exact ⟨r, Read.refl r, h⟩
  | cons f fs ih =>
    intro r tail hf h
    rw [layout, List.append_assoc] at h
    obtain ⟨r₁, hread, hrest⟩ := exists_read (hf f List.mem_cons_self) h
    obtain ⟨r', hreads, htail⟩ := ih (fun g hg => hf g (List.mem_cons_of_mem _ hg)) hrest
    exact ⟨r', hread.trans hreads, htail⟩

/-- Two fields or more are read one after the other. -/
theorem Read.cons_iff {r r'' : Reader} {f g : Field} {fs : List Field} :
    Read r (f :: g :: fs) r'' ↔ ∃ r', Read r [f] r' ∧ Read r' (g :: fs) r'' := by
  constructor
  · intro h
    have hrest := h.rest
    rw [layout, List.append_assoc] at hrest
    obtain ⟨r', hread, htail⟩ := exists_read (h.fits f List.mem_cons_self) hrest
    exact ⟨r', hread, h.buf.trans hread.buf.symm, htail, fun x hx => h.fits x (List.mem_cons_of_mem _ hx)⟩
  · rintro ⟨r', h, h'⟩
    exact h.trans h'

/-- What has been read is what lies before the offset. -/
theorem Read.before {blob : Bytes} {fs : List Field} {r : Reader} (h : Read (new blob) fs r) :
    blob.take r.off = layout fs := by
  have hbuf : r.buf = blob := h.buf
  have hsplit : layout fs ++ r.rest = blob.take r.off ++ r.rest := by
    calc layout fs ++ r.rest = blob := h.rest.symm
      _ = blob.take r.off ++ blob.drop r.off := (List.take_append_drop r.off blob).symm
      _ = blob.take r.off ++ r.rest := by rw [Reader.rest, hbuf]
  exact (List.append_cancel_right hsplit).symm

theorem readInt_iff {r r' : Reader} {w n : ℕ} :
    (r.take w >>= fun p => Except.ok (decode p.1, p.2)) = .ok (n, r') ↔ Read r [.int w n] r' := by
  rw [bind_ok]
  constructor
  · rintro ⟨⟨bs, r₁⟩, hok, heq⟩
    obtain ⟨hbuf, hlen, hrest⟩ := take_iff.mp hok
    cases heq
    subst hlen
    refine ⟨hbuf, ?_, fun f hf => ?_⟩
    · rw [hrest, layout, layout, List.append_nil, Field.bytes, encode_decode]
    · rw [List.mem_singleton.mp hf]
      exact decode_lt bs
  · intro h
    have hn : n < 256 ^ w := h.fits _ List.mem_cons_self
    refine ⟨⟨encode w n, r'⟩, take_iff.mpr ⟨h.buf, encode_length w n, ?_⟩, ?_⟩
    · rw [h.rest, layout, layout, List.append_nil, Field.bytes]
    · rw [decode_encode w n hn]

theorem readUint32_iff {r r' : Reader} {n : ℕ} :
    r.readUint32 = .ok (n, r') ↔ Read r [.int 4 n] r' := readInt_iff

theorem readUint64_iff {r r' : Reader} {n : ℕ} :
    r.readUint64 = .ok (n, r') ↔ Read r [.int 8 n] r' := readInt_iff

theorem readString_iff {r r' : Reader} {bs : Bytes} :
    r.readString = .ok (bs, r') ↔ Read r [.str bs] r' := by
  unfold readString
  rw [bind_ok]
  constructor
  · rintro ⟨⟨n, r₁⟩, hlen, hok⟩
    have hread := readUint32_iff.mp hlen
    obtain ⟨hbuf, hn, hrest⟩ := take_iff.mp hok
    have hfits : n < 256 ^ 4 := hread.fits _ List.mem_cons_self
    refine ⟨hbuf.trans hread.buf, ?_, fun f hf => ?_⟩
    · rw [hread.rest, hrest, ← hn]
      simp only [layout, Field.bytes, framed, List.append_nil, List.append_assoc]
    · rw [List.mem_singleton.mp hf]
      exact hn.trans_lt hfits
  · intro h
    have hfits : bs.length < 256 ^ 4 := h.fits _ List.mem_cons_self
    have hrest := h.rest
    simp only [layout, Field.bytes, framed, List.append_nil, List.append_assoc] at hrest
    obtain ⟨r₁, hread, htail⟩ := exists_read (f := .int 4 bs.length) hfits hrest
    exact ⟨⟨bs.length, r₁⟩, readUint32_iff.mpr hread,
      take_iff.mpr ⟨h.buf.trans hread.buf.symm, rfl, htail⟩⟩

end Reader

/-! ### Lists -/

theorem strings_eq_nil {l : List Bytes} : strings l = [] ↔ l = [] := by
  cases l with
  | nil => simp [strings, layout]
  | cons bs l =>
    have hlen : (strings (bs :: l)).length ≠ 0 := by
      rw [strings_cons, List.length_append, framed_length]
      omega
    simp only [reduceCtorEq, iff_false]
    exact fun h => hlen (by rw [h]; rfl)

/-- The items of a list, each of which fits a field. -/
def Items (buf : Bytes) (l : List Bytes) : Prop := buf = strings l ∧ ∀ bs ∈ l, (Field.str bs).Fits

theorem Items.cons_iff {r : Reader} {bs : Bytes} {l : List Bytes} :
    Items r.rest (bs :: l) ↔ ∃ r', r.readString = .ok (bs, r') ∧ Items r'.rest l := by
  constructor
  · rintro ⟨hbuf, hfits⟩
    rw [strings_cons] at hbuf
    obtain ⟨r', hread, hrest⟩ := Reader.exists_read (hfits bs List.mem_cons_self) hbuf
    exact ⟨r', Reader.readString_iff.mpr hread, hrest, fun x hx => hfits x (List.mem_cons_of_mem _ hx)⟩
  · rintro ⟨r', hok, hbuf, hfits⟩
    have hread := Reader.readString_iff.mp hok
    constructor
    · rw [hread.rest, hbuf, strings_cons, layout, layout, List.append_nil, Field.bytes]
    · intro x hx
      rcases List.mem_cons.mp hx with rfl | hx
      · exact hread.fits _ List.mem_cons_self
      · exact hfits x hx

theorem Items.nil_iff {r : Reader} : Items r.rest [] ↔ r.done = true := by
  rw [Reader.done_iff]
  constructor
  · exact fun h => h.1
  · exact fun h => ⟨h, fun _ hx => absurd hx List.not_mem_nil⟩

theorem Items.done {r : Reader} {l : List Bytes} (h : Items r.rest l) (hd : r.done = true) : l = [] :=
  strings_eq_nil.mp (h.1.symm.trans ((Reader.done_iff r).mp hd))

theorem readStrings_iff (turns : ℕ) : ∀ {r : Reader} {names : List String}, r.left < turns →
    (readStrings turns r = .ok names ↔ ∃ l, Items r.rest l ∧ l.map toUtf8String = names) := by
  induction turns with
  | zero =>
    intro r names hleft
    omega
  | succ turns ih =>
    intro r names hleft
    unfold readStrings
    split
    next hdone =>
      constructor
      · intro h
        cases h
        exact ⟨[], Items.nil_iff.mpr hdone, rfl⟩
      · rintro ⟨l, hl, rfl⟩
        rw [hl.done hdone]
        rfl
    next hdone =>
      rw [bind_ok]
      constructor
      · rintro ⟨⟨bs, r'⟩, hok, h⟩
        obtain ⟨names', hrest, heq⟩ := bind_ok.mp h
        cases heq
        have hshort := Reader.readString_left hok
        obtain ⟨l, hl, rfl⟩ := (ih (by omega)).mp hrest
        exact ⟨bs :: l, Items.cons_iff.mpr ⟨r', hok, hl⟩, rfl⟩
      · rintro ⟨l, hl, rfl⟩
        cases l with
        | nil => exact absurd (Items.nil_iff.mp hl) hdone
        | cons bs l =>
          obtain ⟨r', hok, hl'⟩ := Items.cons_iff.mp hl
          have hshort := Reader.readString_left hok
          exact ⟨(bs, r'), hok, bind_ok.mpr ⟨_, (ih (by omega)).mpr ⟨l, hl', rfl⟩, rfl⟩⟩

theorem parseStringList_iff {buf : Bytes} {names : List String} :
    parseStringList buf = .ok names ↔ ∃ l, Items buf l ∧ l.map toUtf8String = names :=
  readStrings_iff (buf.length + 1) (Nat.lt_succ_of_le (Nat.sub_le _ _))

/-- What the assignments of `parseOptions` leave of a list of options. -/
def optionMap (out : InsertMap String String) : List (Bytes × Bytes) → InsertMap String String
  | [] => out
  | o :: os => optionMap (assign out (toUtf8String o.1) (toUtf8String o.2)) os

theorem assign_has {out : InsertMap String String} {name value key : String} (hkey : key ≠ "__proto__") :
    (assign out name value).has key = true ↔ out.has key = true ∨ name = key := by
  unfold assign
  split
  next hproto =>
    have hname : name ≠ key := fun h => hkey (h.symm.trans hproto)
    simp only [hname, or_false]
  next hproto => rw [InsertMap.has_set, or_comm]

/-- An option is in the object when an entry of that name was read. -/
theorem optionMap_has {os : List (Bytes × Bytes)} {key : String} (hkey : key ≠ "__proto__") :
    ∀ {out : InsertMap String String}, (optionMap out os).has key = true ↔
      out.has key = true ∨ ∃ o ∈ os, toUtf8String o.1 = key := by
  induction os with
  | nil => simp [optionMap]
  | cons o os ih =>
    intro out
    rw [optionMap, ih, assign_has hkey, List.exists_mem_cons_iff, or_assoc]

theorem readOptions_iff (turns : ℕ) : ∀ {r : Reader} {out m : InsertMap String String}, r.left < turns →
    (readOptions turns r out = .ok m ↔
      ∃ os, Items r.rest (alternating os) ∧ optionMap out os = m) := by
  induction turns with
  | zero =>
    intro r out m hleft
    omega
  | succ turns ih =>
    intro r out m hleft
    unfold readOptions
    split
    next hdone =>
      constructor
      · intro h
        cases h
        exact ⟨[], Items.nil_iff.mpr hdone, rfl⟩
      · rintro ⟨os, hos, rfl⟩
        cases os with
        | nil => rfl
        | cons o os => exact absurd (hos.done hdone) (List.cons_ne_nil _ _)
    next hdone =>
      rw [bind_ok]
      constructor
      · rintro ⟨⟨name, r₁⟩, hname, h⟩
        obtain ⟨⟨value, r₂⟩, hvalue, hrest⟩ := bind_ok.mp h
        have hshort := Reader.readString_left hname
        have hshort' := Reader.readString_left hvalue
        obtain ⟨os, hos, rfl⟩ := (ih (by omega)).mp hrest
        exact ⟨(name, value) :: os,
          Items.cons_iff.mpr ⟨r₁, hname, Items.cons_iff.mpr ⟨r₂, hvalue, hos⟩⟩, rfl⟩
      · rintro ⟨os, hos, rfl⟩
        cases os with
        | nil => exact absurd (Items.nil_iff.mp hos) hdone
        | cons o os =>
          obtain ⟨r₁, hname, hos⟩ := Items.cons_iff.mp hos
          obtain ⟨r₂, hvalue, hos⟩ := Items.cons_iff.mp hos
          have hshort := Reader.readString_left hname
          have hshort' := Reader.readString_left hvalue
          exact ⟨(o.1, r₁), hname, bind_ok.mpr ⟨(o.2, r₂), hvalue, (ih (by omega)).mpr ⟨os, hos, rfl⟩⟩⟩

theorem parseOptions_iff {buf : Bytes} {m : InsertMap String String} :
    parseOptions buf = .ok m ↔ ∃ os, Items buf (alternating os) ∧ optionMap InsertMap.empty os = m :=
  readOptions_iff (buf.length + 1) (Nat.lt_succ_of_le (Nat.sub_le _ _))

/-! ### Certificates on the wire -/

/-- The fields the CA signs. -/
@[ext] structure CertFields where
  algo : Bytes
  nonce : Bytes
  pubkey : Bytes
  serial : ℕ
  type : ℕ
  keyId : Bytes
  principals : List Bytes
  validAfter : ℕ
  validBefore : ℕ
  criticalOptions : List (Bytes × Bytes)
  extensions : List (Bytes × Bytes)
  reserved : Bytes
  signatureKey : Bytes
  deriving DecidableEq

def CertFields.fields (w : CertFields) : List Field :=
  [.str w.algo, .str w.nonce, .str w.pubkey, .int 8 w.serial, .int 4 w.type, .str w.keyId,
    .str (strings w.principals), .int 8 w.validAfter, .int 8 w.validBefore,
    .str (strings (alternating w.criticalOptions)), .str (strings (alternating w.extensions)),
    .str w.reserved, .str w.signatureKey]

/-- A certificate of user type: every field fits its place. -/
structure WireCert extends CertFields where
  signature : Bytes
  certAlgo : toUtf8String algo = ED25519_CERT_ALGO
  pubkeyLength : pubkey.length = 32
  userType : type = CERT_TYPE_USER
  fits : ∀ f ∈ toCertFields.fields ++ [.str signature], f.Fits

namespace WireCert

/-- What the signature is over. -/
def tbs (w : WireCert) : Bytes := layout w.fields

def bytes (w : WireCert) : Bytes := layout (w.fields ++ [.str w.signature])

theorem bytes_eq (w : WireCert) : w.bytes = w.tbs ++ framed w.signature := by
  unfold bytes tbs
  rw [layout_append, layout, layout, List.append_nil, Field.bytes]

def parsed (w : WireCert) : ParsedSshUserCert where
  algo := toUtf8String w.algo
  nonce := w.nonce
  pubkey := w.pubkey
  serial := w.serial
  type := w.type
  keyId := toUtf8String w.keyId
  principals := w.principals.map toUtf8String
  validAfter := w.validAfter
  validBefore := w.validBefore
  criticalOptions := optionMap InsertMap.empty w.criticalOptions
  extensions := optionMap InsertMap.empty w.extensions
  signatureKey := w.signatureKey
  tbs := w.tbs
  signature := w.signature

theorem items_of_fits {l : List Bytes} (h : (Field.str (strings l)).Fits) : Items (strings l) l :=
  ⟨rfl, fun _ hx => Nat.lt_of_le_of_lt (length_le_strings hx) h⟩

/-- The parser reads the fields of a certificate one after the other. -/
theorem parse_iff {blob : Bytes} {cert : ParsedSshUserCert} : parseSshUserCert blob = .ok cert ↔
    ∃ (w : WireCert) (r : Reader),
      Reader.Read (Reader.new blob) (w.fields ++ [.str w.signature]) r ∧ w.parsed = cert := by
  unfold parseSshUserCert
  -- The checks come first: what lies behind one stands in both of its branches.
  simp only [↓bind_ok, ↓check_ok, pure, Except.pure, Prod.exists, Reader.readString_iff,
    Reader.readUint32_iff, Reader.readUint64_iff, parseStringList_iff, parseOptions_iff, not_not]
  constructor
  · rintro ⟨algo, r₁, h₁, halgo, nonce, r₂, h₂, pubkey, r₃, h₃, hpubkey, serial, r₄, h₄, type, r₅, h₅,
      htype, keyId, r₆, h₆, principals, r₇, h₇, _, ⟨ps, ⟨rfl, -⟩, rfl⟩, validAfter, r₈, h₈, validBefore,
      r₉, h₉, critical, r₁₀, h₁₀, _, ⟨os, ⟨rfl, -⟩, rfl⟩, extensions, r₁₁, h₁₁, _,
      ⟨es, ⟨rfl, -⟩, rfl⟩, reserved, r₁₂, h₁₂, signatureKey, r₁₃, h₁₃, signature, r₁₄, h₁₄, hcert⟩
    have hsigned := (((((((((((h₁.trans h₂).trans h₃).trans h₄).trans h₅).trans h₆).trans h₇).trans
      h₈).trans h₉).trans h₁₀).trans h₁₁).trans h₁₂).trans h₁₃
    have hall := hsigned.trans h₁₄
    refine ⟨⟨⟨algo, nonce, pubkey, serial, type, keyId, ps, validAfter, validBefore, os, es, reserved,
      signatureKey⟩, signature, halgo, hpubkey, htype, hall.fits⟩, r₁₄, hall, ?_⟩
    rw [← Except.ok.inj hcert, hsigned.before]
    rfl
  · rintro ⟨w, r₁₄, hread, rfl⟩
    simp only [CertFields.fields, List.cons_append, List.nil_append, Reader.Read.cons_iff] at hread
    obtain ⟨r₁, h₁, r₂, h₂, r₃, h₃, r₄, h₄, r₅, h₅, r₆, h₆, r₇, h₇, r₈, h₈, r₉, h₉, r₁₀, h₁₀, r₁₁, h₁₁,
      r₁₂, h₁₂, r₁₃, h₁₃, h₁₄⟩ := hread
    have hsigned := (((((((((((h₁.trans h₂).trans h₃).trans h₄).trans h₅).trans h₆).trans h₇).trans
      h₈).trans h₉).trans h₁₀).trans h₁₁).trans h₁₂).trans h₁₃
    refine ⟨w.algo, r₁, h₁, w.certAlgo, w.nonce, r₂, h₂, w.pubkey, r₃, h₃, w.pubkeyLength, w.serial, r₄,
      h₄, w.type, r₅, h₅, w.userType, w.keyId, r₆, h₆, _, r₇, h₇, _,
      ⟨w.principals, items_of_fits (h₇.fits _ List.mem_cons_self), rfl⟩, w.validAfter, r₈, h₈,
      w.validBefore, r₉, h₉, _, r₁₀, h₁₀, _,
      ⟨w.criticalOptions, items_of_fits (h₁₀.fits _ List.mem_cons_self), rfl⟩, _, r₁₁, h₁₁, _,
      ⟨w.extensions, items_of_fits (h₁₁.fits _ List.mem_cons_self), rfl⟩, w.reserved, r₁₂, h₁₂,
      w.signatureKey, r₁₃, h₁₃, w.signature, r₁₄, h₁₄, ?_⟩
    rw [hsigned.before]
    rfl

/-- What the parser accepts begins with a certificate. -/
theorem parse_sound {blob : Bytes} {cert : ParsedSshUserCert} (h : parseSshUserCert blob = .ok cert) :
    ∃ (w : WireCert) (trailing : Bytes), blob = w.bytes ++ trailing ∧ w.parsed = cert := by
  obtain ⟨w, r, hread, hcert⟩ := parse_iff.mp h
  exact ⟨w, r.rest, hread.rest, hcert⟩

/-- What begins with a certificate is accepted. -/
theorem parse_bytes (w : WireCert) (trailing : Bytes) :
    parseSshUserCert (w.bytes ++ trailing) = .ok w.parsed := by
  obtain ⟨r, hread, -⟩ := Reader.exists_reads w.fits (Reader.new_rest (w.bytes ++ trailing))
  exact parse_iff.mpr ⟨w, r, hread, rfl⟩

/-! ### One certificate for the bytes -/

theorem sameKind (w v : WireCert) : List.Forall₂ Field.SameKind w.fields v.fields := by
  unfold CertFields.fields
  repeat constructor

/-- The fields can be read back from what the signature is over. -/
theorem fields_of_tbs {w v : WireCert} {x y : Bytes} (h : w.tbs ++ x = v.tbs ++ y) :
    w.toCertFields = v.toCertFields ∧ x = y := by
  have hw : ∀ f ∈ w.fields, f.Fits := fun f hf => w.fits f (List.mem_append_left _ hf)
  have hv : ∀ f ∈ v.fields, f.Fits := fun f hf => v.fits f (List.mem_append_left _ hf)
  obtain ⟨hfields, hxy⟩ := layout_append_inj (sameKind w v) hw hv h
  refine ⟨?_, hxy⟩
  have hp : (Field.str (strings w.principals)).Fits := hw _ (by simp [CertFields.fields])
  have ho : (Field.str (strings (alternating w.criticalOptions))).Fits := hw _ (by simp [CertFields.fields])
  have he : (Field.str (strings (alternating w.extensions))).Fits := hw _ (by simp [CertFields.fields])
  simp only [CertFields.fields, List.cons.injEq, Field.str.injEq, Field.int.injEq, true_and,
    and_true] at hfields
  obtain ⟨h₁, h₂, h₃, h₄, h₅, h₆, h₇, h₈, h₉, h₁₀, h₁₁, h₁₂, h₁₃⟩ := hfields
  have hprincipals := strings_inj hp h₇
  have hcritical := alternating_inj (strings_inj ho h₁₀)
  have hextensions := alternating_inj (strings_inj he h₁₁)
  exact CertFields.ext h₁ h₂ h₃ h₄ h₅ h₆ hprincipals h₈ h₉ hcritical hextensions h₁₂ h₁₃

theorem eq_of_fields : ∀ {w v : WireCert}, w.toCertFields = v.toCertFields →
    w.signature = v.signature → w = v
  | ⟨_, _, _, _, _, _⟩, ⟨_, _, _, _, _, _⟩, rfl, rfl => rfl

/-- No two certificates begin the same bytes. -/
theorem bytes_append_inj {w v : WireCert} {x y : Bytes} (h : w.bytes ++ x = v.bytes ++ y) :
    w = v ∧ x = y := by
  rw [bytes_eq, bytes_eq, List.append_assoc, List.append_assoc] at h
  obtain ⟨hfields, hrest⟩ := fields_of_tbs h
  have hsignature : ∀ u : WireCert, u.signature.length < 256 ^ 4 := fun u =>
    u.fits (.str u.signature) (List.mem_append_right _ (List.mem_singleton_self _))
  obtain ⟨hsig, hxy⟩ := framed_append_inj (hsignature w) (hsignature v) hrest
  exact ⟨eq_of_fields hfields hsig, hxy⟩

end WireCert

/-- Certificates with the same signed bytes differ in their signatures only. -/
theorem attributes_of_tbs (blob blob' : Bytes) (cert cert' : ParsedSshUserCert)
    (h : parseSshUserCert blob = .ok cert) (h' : parseSshUserCert blob' = .ok cert')
    (htbs : cert.tbs = cert'.tbs) : { cert with signature := cert'.signature } = cert' := by
  obtain ⟨w, x, -, rfl⟩ := WireCert.parse_sound h
  obtain ⟨v, y, -, rfl⟩ := WireCert.parse_sound h'
  have hsame : w.tbs ++ [] = v.tbs ++ [] := congrArg (· ++ []) htbs
  obtain ⟨hfields, -⟩ := WireCert.fields_of_tbs hsame
  simp only [WireCert.parsed, WireCert.tbs, hfields]

def text (s : String) : Bytes := s.toUTF8.data.toList

def deviceFields (criticalOptions : List (Bytes × Bytes)) : CertFields where
  algo := text "ssh-ed25519-cert-v01@openssh.com"
  nonce := []
  pubkey := List.replicate 32 1
  serial := 7
  type := 1
  keyId := text "q1"
  principals := [text "unoq"]
  validAfter := 0
  validBefore := 4000000000
  criticalOptions := criticalOptions
  extensions := [(text "permit-port-forwarding", [])]
  reserved := []
  signatureKey := framed (text "ssh-ed25519") ++ framed (List.replicate 32 0)

theorem deviceAlgo : toUtf8String (text "ssh-ed25519-cert-v01@openssh.com") = ED25519_CERT_ALGO := by
  decide +kernel

def deviceCert (criticalOptions : List (Bytes × Bytes)) (signature : Bytes)
    (fits : ∀ f ∈ (deviceFields criticalOptions).fields ++ [.str signature], f.Fits) : WireCert where
  toCertFields := deviceFields criticalOptions
  signature := signature
  certAlgo := deviceAlgo
  pubkeyLength := rfl
  userType := rfl
  fits := fits

def caSignature : Bytes := framed (text "ssh-ed25519") ++ framed (List.replicate 64 2)

def signedCert : WireCert := deviceCert [] caSignature (by decide +kernel)
def unsignedCert : WireCert := deviceCert [] [] (by decide +kernel)

theorem unsignedCert_attributes :
    { unsignedCert.parsed with signature := caSignature } = signedCert.parsed :=
  attributes_of_tbs _ _ _ _ (WireCert.parse_bytes unsignedCert [0]) (WireCert.parse_bytes signedCert [])
    (by decide +kernel)

end UnoQ.Ssh
