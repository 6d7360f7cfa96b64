import UnoQ.Lib.Recorded
import UnoQ.Ssh.SshServer

/-!
# What the reader touches

The parser over a plain offset, as `class Reader` has it: nothing but `requireRange` keeps the
offset within the buffer. Every access to a buffer and every turn of the two list loops is
recorded. The loops are bounded by a number of turns, and running out of them is an act of its own.
-/

namespace UnoQ.Ssh
open BigEndian Recorded

/-- The offset is not known to lie within the buffer. -/
structure Cursor where
  buf : Bytes
  off : ℕ

/-- `read`: so many bytes from the offset on are read. `short`: `requireRange` throws. `turn`: a turn
of a list loop took the offset from one place to another. `finish`: a list loop ended. `cutOff`: it
had no turn left. -/
inductive Access
  | read (buf : Bytes) (off size : ℕ)
  | short (buf : Bytes) (off size : ℕ)
  | turn (buf : Bytes) (off next : ℕ)
  | finish (buf : Bytes) (off : ℕ)
  | cutOff

abbrev Reading := Recorded Access String

def unexpectedEnd (buf : Bytes) (off size : ℕ) : String :=
  "unexpected end of cert blob: need " ++ toString size ++ " bytes at offset " ++ toString off ++
    " but only " ++ toString (buf.length - off) ++ " remain"

namespace Cursor

def new (buf : Bytes) : Cursor := ⟨buf, 0⟩

def done (c : Cursor) : Bool := decide (c.buf.length ≤ c.off)

def requireRange (c : Cursor) (n : ℕ) : Reading Unit :=
  if c.buf.length < c.off + n then do
    act (.short c.buf c.off n)
    fail (unexpectedEnd c.buf c.off n)
  else return ()

/-- The next bytes, which may lie outside the buffer. -/
def next (c : Cursor) (n : ℕ) : Reading (Bytes × Cursor) := do
  act (.read c.buf c.off n)
  return ((c.buf.drop c.off).take n, ⟨c.buf, c.off + n⟩)

def readUint32 (c : Cursor) : Reading (ℕ × Cursor) := do
  c.requireRange 4
  let (bs, c) ← c.next 4
  return (decode bs, c)

def readUint64 (c : Cursor) : Reading (ℕ × Cursor) := do
  c.requireRange 8
  let (bs, c) ← c.next 8
  return (decode bs, c)

def readString (c : Cursor) : Reading (Bytes × Cursor) := do
  let (len, c) ← c.readUint32
  c.requireRange len
  c.next len

def readStrings : ℕ → Cursor → Reading (List String)
  | 0, _ => do
    act .cutOff
    return []
  | turns + 1, c =>
    if c.done then do
      act (.finish c.buf c.off)
      return []
    else do
      let (s, c') ← c.readString
      act (.turn c.buf c.off c'.off)
      let rest ← readStrings turns c'
      return toUtf8String s :: rest

def readOptions : ℕ → Cursor → InsertMap String String → Reading (InsertMap String String)
  | 0, _, out => do
    act .cutOff
    return out
  | turns + 1, c, out =>
    if c.done then do
      act (.finish c.buf c.off)
      return out
    else do
      let (name, c') ← c.readString
      let (value, c') ← c'.readString
      act (.turn c.buf c.off c'.off)
      readOptions turns c' (assign out (toUtf8String name) (toUtf8String value))

/-- Every turn reads at least four bytes, so there are `spare` turns too many. -/
def parseStringList (spare : ℕ) (buf : Bytes) : Reading (List String) :=
  readStrings (buf.length + 1 + spare) (new buf)

def parseOptions (spare : ℕ) (buf : Bytes) : Reading (InsertMap String String) :=
  readOptions (buf.length + 1 + spare) (new buf) InsertMap.empty

end Cursor

/-- `parseSshUserCert` with its accesses. -/
def readSshUserCert (spare : ℕ) (blob : Bytes) : Reading ParsedSshUserCert := do
  let c := Cursor.new blob
  let (algoBytes, c) ← c.readString
  let algo := toUtf8String algoBytes
  if algo ≠ ED25519_CERT_ALGO then fail ("unsupported cert algorithm: " ++ algo)
  else
    let (nonce, c) ← c.readString
    let (pubkey, c) ← c.readString
    if pubkey.length ≠ 32 then
      fail ("ed25519 cert pubkey must be 32 bytes, got " ++ toString pubkey.length)
    else
      let (serial, c) ← c.readUint64
      let (type, c) ← c.readUint32
      if type ≠ CERT_TYPE_USER then
        fail ("expected user cert (type=1), got type=" ++ toString type)
      else
        let (keyId, c) ← c.readString
        let (principalBytes, c) ← c.readString
        let principals ← Cursor.parseStringList spare principalBytes
        let (validAfter, c) ← c.readUint64
        let (validBefore, c) ← c.readUint64
        let (criticalBytes, c) ← c.readString
        let criticalOptions ← Cursor.parseOptions spare criticalBytes
        let (extensionBytes, c) ← c.readString
        let extensions ← Cursor.parseOptions spare extensionBytes
        let (_, c) ← c.readString
        let (signatureKey, c) ← c.readString
        let tbsEnd := c.off
        let (signature, _) ← c.readString
        return {
          algo, nonce, pubkey, serial, type
          keyId := toUtf8String keyId
          principals, validAfter, validBefore, criticalOptions, extensions, signatureKey
          tbs := blob.take tbsEnd
          signature }

/-! ### The same results -/

def Reader.cursor (r : Reader) : Cursor := ⟨r.buf, r.off⟩

/-- What comes after a read goes on from the same place. -/
def Agrees {β : Type} (x : Reading (β × Cursor)) (y : Except String (β × Reader)) : Prop :=
  ∀ (γ : Type) (f : β × Cursor → Reading γ),
    (x >>= f).result = y >>= fun p => (f (p.1, p.2.cursor)).result

theorem take_agrees (r : Reader) (n : ℕ) :
    Agrees (do r.cursor.requireRange n; r.cursor.next n) (r.take n) := by
  intro γ f
  unfold Reader.take Cursor.requireRange
  by_cases hroom : r.off + n ≤ r.buf.length
  · have hlong : ¬ r.cursor.buf.length < r.cursor.off + n := Nat.not_lt.mpr hroom
    rw [dif_pos hroom, if_neg hlong]
    rfl
  · have hshort : r.cursor.buf.length < r.cursor.off + n := Nat.not_le.mp hroom
    rw [dif_neg hroom, if_pos hshort]
    rfl

theorem bind_assoc {α β γ : Type} (x : Except String α) (f : α → Except String β)
    (g : β → Except String γ) : (x >>= f) >>= g = x >>= fun a => f a >>= g := by
  cases x <;> rfl

theorem Agrees.then {β γ : Type} {x : Reading (β × Cursor)} {y : Except String (β × Reader)}
    (h : Agrees x y) {f : β × Cursor → Reading γ} {g : β × Reader → Except String γ}
    (hfg : ∀ b r, (f (b, Reader.cursor r)).result = g (b, r)) : (x >>= f).result = y >>= g := by
  rw [h γ f]
  exact congrArg (y >>= ·) (funext fun p => hfg p.1 p.2)

theorem result_then {β γ : Type} {x : Reading β} {y : Except String β} (h : x.result = y)
    {f : β → Reading γ} {g : β → Except String γ} (hfg : ∀ b, (f b).result = g b) :
    (x >>= f).result = y >>= g := by
  rw [result_bind, h]
  exact congrArg (y >>= ·) (funext hfg)

theorem result_check {β γ : Type} {c : Prop} [Decidable c] {message : String}
    {f : γ → Except String β} {x : Reading β} {y : Except String β} (h : x.result = y) :
    (if c then fail message else x).result = if c then throw message >>= f else y := by
  rw [result_ite, h]
  rfl

theorem readUint32_agrees (r : Reader) : Agrees r.cursor.readUint32 r.readUint32 := by
  intro γ f
  have htake := take_agrees r 4 γ fun p => f (decode p.1, p.2)
  unfold Cursor.readUint32 Reader.readUint32
  simp only [result_bind, bind_assoc] at htake ⊢
  exact htake

theorem readUint64_agrees (r : Reader) : Agrees r.cursor.readUint64 r.readUint64 := by
  intro γ f
  have htake := take_agrees r 8 γ fun p => f (decode p.1, p.2)
  unfold Cursor.readUint64 Reader.readUint64
  simp only [result_bind, bind_assoc] at htake ⊢
  exact htake

theorem readString_agrees (r : Reader) : Agrees r.cursor.readString r.readString := by
  intro γ f
  have hbody : ∀ (n : ℕ) (r' : Reader), ((do r'.cursor.requireRange n; r'.cursor.next n) >>= f).result =
      r'.take n >>= fun p => (f (p.1, p.2.cursor)).result := fun n r' => take_agrees r' n γ f
  have hlen := (readUint32_agrees r).then
    (f := fun p => (do p.2.requireRange p.1; p.2.next p.1) >>= f)
    (g := fun p => p.2.take p.1 >>= fun q => (f (q.1, q.2.cursor)).result) hbody
  unfold Cursor.readString Reader.readString
  simp only [result_bind, bind_assoc] at hlen ⊢
  exact hlen

theorem done_agrees (r : Reader) : r.cursor.done = r.done := rfl

theorem readStrings_agree (turns : ℕ) : ∀ r : Reader,
    (Cursor.readStrings turns r.cursor).result = readStrings turns r := by
  induction turns with
  | zero => exact fun _ => rfl
  | succ turns ih =>
    intro r
    unfold Cursor.readStrings readStrings
    rw [result_ite, done_agrees]
    congr 1
    refine (readString_agrees r).then fun s r' => ?_
    rw [result_act_bind]
    exact result_then (ih r') fun rest => rfl

theorem readOptions_agree (turns : ℕ) : ∀ (r : Reader) (out : InsertMap String String),
    (Cursor.readOptions turns r.cursor out).result = readOptions turns r out := by
  induction turns with
  | zero => exact fun _ _ => rfl
  | succ turns ih =>
    intro r out
    unfold Cursor.readOptions readOptions
    rw [result_ite, done_agrees]
    congr 1
    refine (readString_agrees r).then fun name r' => ?_
    refine (readString_agrees r').then fun value r'' => ?_
    rw [result_act_bind]
    exact ih r'' _

theorem parseStringList_agrees (spare : ℕ) (buf : Bytes) :
    (Cursor.parseStringList spare buf).result = parseStringList buf := by
  unfold Cursor.parseStringList parseStringList
  have hleft : (Reader.new buf).left ≤ buf.length := Nat.sub_le _ _
  calc (Cursor.readStrings (buf.length + 1 + spare) (Reader.new buf).cursor).result
      = readStrings (buf.length + 1 + spare) (Reader.new buf) := readStrings_agree _ _
    _ = readStrings (buf.length + 1) (Reader.new buf) :=
        readStrings_turns _ _ _ (by omega) (by omega)

theorem parseOptions_agrees (spare : ℕ) (buf : Bytes) :
    (Cursor.parseOptions spare buf).result = parseOptions buf := by
  unfold Cursor.parseOptions parseOptions
  have hleft : (Reader.new buf).left ≤ buf.length := Nat.sub_le _ _
  calc (Cursor.readOptions (buf.length + 1 + spare) (Reader.new buf).cursor .empty).result
      = readOptions (buf.length + 1 + spare) (Reader.new buf) .empty := readOptions_agree _ _ _
    _ = readOptions (buf.length + 1) (Reader.new buf) .empty :=
        readOptions_turns _ _ _ _ (by omega) (by omega)

/-- The parser answers the same with its accesses recorded. -/
theorem readSshUserCert_result (spare : ℕ) (blob : Bytes) :
    (readSshUserCert spare blob).result = parseSshUserCert blob := by
  unfold readSshUserCert parseSshUserCert
  refine (readString_agrees (Reader.new blob)).then fun algoBytes r => ?_
  refine result_check ?_
  refine (readString_agrees r).then fun nonce r => ?_
  refine (readString_agrees r).then fun pubkey r => ?_
  refine result_check ?_
  refine (readUint64_agrees r).then fun serial r => ?_
  refine (readUint32_agrees r).then fun type r => ?_
  refine result_check ?_
  refine (readString_agrees r).then fun keyId r => ?_
  refine (readString_agrees r).then fun principalBytes r => ?_
  refine result_then (parseStringList_agrees spare principalBytes) fun principals => ?_
  refine (readUint64_agrees r).then fun validAfter r => ?_
  refine (readUint64_agrees r).then fun validBefore r => ?_
  refine (readString_agrees r).then fun criticalBytes r => ?_
  refine result_then (parseOptions_agrees spare criticalBytes) fun criticalOptions => ?_
  refine (readString_agrees r).then fun extensionBytes r => ?_
  refine result_then (parseOptions_agrees spare extensionBytes) fun extensions => ?_
  refine (readString_agrees r).then fun reserved r => ?_
  refine (readString_agrees r).then fun signatureKey r => ?_
  refine (readString_agrees r).then fun signature r' => ?_
  rfl

/-! ### Safe accesses -/

/-- The error with which `requireRange` throws. -/
def Access.failure : Access → Option String
  | .short buf off size => some (unexpectedEnd buf off size)
  | _ => none

def Access.Safe : Access → Prop
  | .read buf off size => off + size ≤ buf.length
  | .short buf off size => off ≤ buf.length ∧ buf.length < off + size
  | .turn buf off next => off + 4 ≤ next ∧ next ≤ buf.length
  | .finish buf off => off = buf.length
  | .cutOff => False

abbrev SafeReading {β : Type} (x : Reading β) (wanted : β → Prop) : Prop :=
  Keeps Access.Safe Access.failure x wanted

namespace Cursor

def Within (c : Cursor) : Prop := c.off ≤ c.buf.length

/-- The cursor has moved on by this much at least, and is still within its buffer. -/
structure Moved (c : Cursor) (n : ℕ) (c' : Cursor) : Prop where
  buf : c'.buf = c.buf
  off : c.off + n ≤ c'.off
  within : c'.Within

theorem Moved.trans {c c' c'' : Cursor} {n m : ℕ} (h : Moved c n c') (h' : Moved c' m c'') :
    Moved c n c'' :=
  ⟨h'.buf.trans h.buf, h.off.trans ((Nat.le_add_right _ _).trans h'.off), h'.within⟩

theorem Moved.end_le {c c' : Cursor} {n : ℕ} (h : Moved c n c') : c'.off ≤ c.buf.length :=
  h.buf ▸ h.within

theorem Moved.fewer {c c' : Cursor} {turns : ℕ} (h : Moved c 4 c')
    (hturns : c.buf.length - c.off < turns + 1) : c'.buf.length - c'.off < turns := by
  have hoff := h.off
  have hend := h.end_le
  rw [h.buf]
  omega

theorem new_within (buf : Bytes) : (new buf).Within := Nat.zero_le _

theorem done_iff (c : Cursor) : c.done = true ↔ c.buf.length ≤ c.off := decide_eq_true_iff

theorem requireRange_safe {c : Cursor} (hc : c.Within) (n : ℕ) :
    SafeReading (c.requireRange n) fun _ => c.off + n ≤ c.buf.length := by
  refine Keeps.ite (fun hshort => ?_) (fun hroom => ?_)
  · exact Keeps.failed (And.intro hc hshort) rfl
  · exact Keeps.pure (Nat.not_lt.mp hroom)

theorem next_safe {c : Cursor} {n : ℕ} (hroom : c.off + n ≤ c.buf.length) :
    SafeReading (c.next n) fun p => Moved c n p.2 := by
  refine Keeps.bind (Keeps.act hroom rfl) fun _ _ => ?_
  exact Keeps.pure ⟨rfl, Nat.le_refl _, hroom⟩

theorem readInt_safe {c : Cursor} (hc : c.Within) (n : ℕ) :
    SafeReading (do c.requireRange n; let (bs, c) ← c.next n; return (decode bs, c))
      fun p => Moved c n p.2 := by
  refine (requireRange_safe hc n).bind fun _ hroom => ?_
  refine (next_safe hroom).bind fun p hp => ?_
  exact Keeps.pure hp

theorem readUint32_safe {c : Cursor} (hc : c.Within) :
    SafeReading c.readUint32 fun p => Moved c 4 p.2 := readInt_safe hc 4

theorem readUint64_safe {c : Cursor} (hc : c.Within) :
    SafeReading c.readUint64 fun p => Moved c 8 p.2 := readInt_safe hc 8

/-- The length is four bytes, whatever it says. -/
theorem readString_safe {c : Cursor} (hc : c.Within) :
    SafeReading c.readString fun p => Moved c 4 p.2 := by
  refine (readUint32_safe hc).bind fun p hlen => ?_
  refine (requireRange_safe hlen.within p.1).bind fun _ hroom => ?_
  exact (next_safe hroom).mono fun q hq => hlen.trans hq

/-- A loop with more turns than there are bytes left ends before it has used them up. -/
theorem readStrings_safe (turns : ℕ) : ∀ c : Cursor, c.Within → c.buf.length - c.off < turns →
    SafeReading (readStrings turns c) fun _ => True := by
  induction turns with
  | zero =>
    intro c _ hturns
    omega
  | succ turns ih =>
    intro c hc hturns
    refine Keeps.ite (fun hdone => ?_) (fun hmore => ?_)
    · have hend : c.off = c.buf.length := Nat.le_antisymm hc ((done_iff c).mp hdone)
      refine Keeps.bind (Keeps.act hend rfl) fun _ _ => ?_
      exact Keeps.pure trivial
    · refine (readString_safe hc).bind fun p hp => ?_
      refine Keeps.bind (Keeps.act ⟨hp.off, hp.end_le⟩ rfl) fun _ _ => ?_
      refine (ih p.2 hp.within (hp.fewer hturns)).bind fun rest _ => ?_
      exact Keeps.pure trivial

theorem readOptions_safe (turns : ℕ) : ∀ (c : Cursor) (out : InsertMap String String), c.Within →
    c.buf.length - c.off < turns → SafeReading (readOptions turns c out) fun _ => True := by
  induction turns with
  | zero =>
    intro c out _ hturns
    omega
  | succ turns ih =>
    intro c out hc hturns
    refine Keeps.ite (fun hdone => ?_) (fun hmore => ?_)
    · have hend : c.off = c.buf.length := Nat.le_antisymm hc ((done_iff c).mp hdone)
      refine Keeps.bind (Keeps.act hend rfl) fun _ _ => ?_
      exact Keeps.pure trivial
    · refine (readString_safe hc).bind fun p hp => ?_
      refine (readString_safe hp.within).bind fun q hq => ?_
      have hmoved := hp.trans hq
      refine Keeps.bind (Keeps.act ⟨hmoved.off, hmoved.end_le⟩ rfl) fun _ _ => ?_
      exact ih q.2 _ hmoved.within (hmoved.fewer hturns)

/-- A loop that returns has ended at the end of its buffer. -/
theorem readStrings_finish (turns : ℕ) : ∀ c : Cursor, c.Within → c.buf.length - c.off < turns →
    Did (.finish c.buf c.buf.length) (readStrings turns c) := by
  induction turns with
  | zero =>
    intro c _ hturns
    omega
  | succ turns ih =>
    intro c hc hturns
    refine Did.ite (fun hdone => ?_) (fun hmore => ?_)
    · have hend : c.off = c.buf.length := Nat.le_antisymm hc ((done_iff c).mp hdone)
      rw [hend]
      exact Did.act _
    · refine Did.after fun p hp => Did.after fun _ _ => Did.before ?_
      have hmoved := (readString_safe hc).returns p hp
      have hdid := ih p.2 hmoved.within (hmoved.fewer hturns)
      rw [hmoved.buf] at hdid
      exact hdid

theorem readOptions_finish (turns : ℕ) : ∀ (c : Cursor) (out : InsertMap String String), c.Within →
    c.buf.length - c.off < turns → Did (.finish c.buf c.buf.length) (readOptions turns c out) := by
  induction turns with
  | zero =>
    intro c out _ hturns
    omega
  | succ turns ih =>
    intro c out hc hturns
    refine Did.ite (fun hdone => ?_) (fun hmore => ?_)
    · have hend : c.off = c.buf.length := Nat.le_antisymm hc ((done_iff c).mp hdone)
      rw [hend]
      exact Did.act _
    · refine Did.after fun p hp => Did.after fun q hq => Did.after fun _ _ => ?_
      have hname := (readString_safe hc).returns p hp
      have hmoved := hname.trans ((readString_safe hname.within).returns q hq)
      have hdid := ih q.2 (assign out (toUtf8String p.1) (toUtf8String q.1)) hmoved.within
        (hmoved.fewer hturns)
      rw [hmoved.buf] at hdid
      exact hdid

theorem turns_enough (spare : ℕ) (buf : Bytes) :
    (new buf).buf.length - (new buf).off < buf.length + 1 + spare := by
  show buf.length - 0 < _
  omega

theorem parseStringList_safe (spare : ℕ) (buf : Bytes) :
    SafeReading (parseStringList spare buf) fun _ => True :=
  readStrings_safe _ _ (new_within buf) (turns_enough spare buf)

theorem parseOptions_safe (spare : ℕ) (buf : Bytes) :
    SafeReading (parseOptions spare buf) fun _ => True :=
  readOptions_safe _ _ _ (new_within buf) (turns_enough spare buf)

end Cursor

theorem readSshUserCert_safe (spare : ℕ) (blob : Bytes) :
    SafeReading (readSshUserCert spare blob) fun _ => True := by
  refine (Cursor.readString_safe (Cursor.new_within blob)).bind fun algo h => ?_
  refine Keeps.ite (fun _ => Keeps.fail _) fun _ => ?_
  refine (Cursor.readString_safe h.within).bind fun nonce h => ?_
  refine (Cursor.readString_safe h.within).bind fun pubkey h => ?_
  refine Keeps.ite (fun _ => Keeps.fail _) fun _ => ?_
  refine (Cursor.readUint64_safe h.within).bind fun serial h => ?_
  refine (Cursor.readUint32_safe h.within).bind fun type h => ?_
  refine Keeps.ite (fun _ => Keeps.fail _) fun _ => ?_
  refine (Cursor.readString_safe h.within).bind fun keyId h => ?_
  refine (Cursor.readString_safe h.within).bind fun principalBytes h => ?_
  refine (Cursor.parseStringList_safe spare _).bind fun principals _ => ?_
  refine (Cursor.readUint64_safe h.within).bind fun validAfter h => ?_
  refine (Cursor.readUint64_safe h.within).bind fun validBefore h => ?_
  refine (Cursor.readString_safe h.within).bind fun criticalBytes h => ?_
  refine (Cursor.parseOptions_safe spare _).bind fun criticalOptions _ => ?_
  refine (Cursor.readString_safe h.within).bind fun extensionBytes h => ?_
  refine (Cursor.parseOptions_safe spare _).bind fun extensions _ => ?_
  refine (Cursor.readString_safe h.within).bind fun reserved h => ?_
  refine (Cursor.readString_safe h.within).bind fun signatureKey h => ?_
  refine (Cursor.readString_safe h.within).bind fun signature _ => ?_
  exact Keeps.pure trivial

/-! ### Errors -/

theorem handleAuth_of_error {blob : Bytes} {message : String} (h : parseSshUserCert blob = .error message)
    (verify : Ed25519) (config : Option SshServerConfig) (nowMs : ℤ) {ctx : AuthContext}
    (hdata : ctx.key.bind (·.data) = some blob) :
    ∃ methods, handleAuth verify config nowMs ctx = .reject methods := by
  unfold handleAuth
  split
  · exact ⟨_, rfl⟩
  · split
    · exact ⟨_, rfl⟩
    · rw [hdata]
      dsimp only
      rw [h]
      exact ⟨_, rfl⟩

theorem clients_of_reject {verify : Ed25519} {s : SshServer} {nowMs : ℤ} {ctx : AuthContext}
    {methods : List String} (h : handleAuth verify s.config nowMs ctx = .reject methods) (c : ℕ) :
    (s.onAuthentication verify c nowMs ctx).clients = s.clients := by
  unfold SshServer.onAuthentication
  dsimp only
  rw [h]

/-- For every blob, with any number of turns to spare: every access is safe, the parser answers as it
does without a record, a length that is out of range is its error, and a context with a blob it throws
on is rejected and captures no nickname. A list loop that returns has come to the end of its buffer. -/
theorem hostileBlob_safe (spare : ℕ) (blob : Bytes) :
    (∀ a ∈ (readSshUserCert spare blob).acts, a.Safe) ∧
    (readSshUserCert spare blob).result = parseSshUserCert blob ∧
    (∀ buf off size, .short buf off size ∈ (readSshUserCert spare blob).acts →
      parseSshUserCert blob = .error (unexpectedEnd buf off size)) ∧
    (∀ message, parseSshUserCert blob = .error message → ∀ verify (s : SshServer) nowMs ctx,
      ctx.key.bind (·.data) = some blob →
        (∃ methods, handleAuth verify s.config nowMs ctx = .reject methods) ∧
        ∀ c, (s.onAuthentication verify c nowMs ctx).clients = s.clients) ∧
    ∀ buf,
      (∀ names, (Cursor.parseStringList spare buf).result = .ok names →
        .finish buf buf.length ∈ (Cursor.parseStringList spare buf).acts) ∧
      ∀ options, (Cursor.parseOptions spare buf).result = .ok options →
        .finish buf buf.length ∈ (Cursor.parseOptions spare buf).acts := by
  have hsafe := readSshUserCert_safe spare blob
  have hresult := readSshUserCert_result spare blob
  refine ⟨hsafe.allowed, hresult, fun buf off size hmem => ?_, fun message hthrown => ?_, fun buf => ?_⟩
  · rw [← hresult]
    exact hsafe.ends _ hmem _ rfl
  · intro verify s nowMs ctx hdata
    obtain ⟨methods, hreject⟩ := handleAuth_of_error hthrown verify s.config nowMs hdata
    exact ⟨⟨methods, hreject⟩, clients_of_reject hreject⟩
  · have hturns := Cursor.turns_enough spare buf
    exact ⟨Cursor.readStrings_finish _ (.new buf) (Cursor.new_within buf) hturns,
      Cursor.readOptions_finish _ (.new buf) _ (Cursor.new_within buf) hturns⟩

end UnoQ.Ssh
