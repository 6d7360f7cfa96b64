import UnoQ.Codec.Msgpack

/-!
# The stream decoder

`StreamDecoder.feed` keeps the bytes of an unfinished message between chunks. The
decoder library does not tell how far it read, so `feed` encodes every value again
and counts those bytes instead. What comes out is therefore right exactly while
the two lengths agree: `streamDecoder_exact_iff` says when, for every way the bytes
of a sequence of values may be cut into chunks.
-/

namespace UnoQ.Codec
open MessagePack BigEndian

structure StreamDecoder where
  buffer : Bytes
  deriving DecidableEq, Repr

namespace StreamDecoder

def fresh : StreamDecoder := ⟨[]⟩

/-- The loop of `feed`: the messages it pushes and `bytesConsumed`. A value that cannot be encoded
again has been pushed before the throw ends the loop. -/
def collect (mp : Msgpack) : List JsValue → List JsValue × ℕ
  | [] => ([], 0)
  | value :: values =>
    match mp.encode value with
    | none => ([value], 0)
    | some bs => (value :: (collect mp values).1, bs.length + (collect mp values).2)

def feed (mp : Msgpack) (d : StreamDecoder) (chunk : Bytes) : List JsValue × StreamDecoder :=
  let combined := d.buffer ++ chunk
  let r := collect mp (mp.decodeMulti combined).1
  (r.1, ⟨combined.drop r.2⟩)

/-- Feeds the chunks one by one; the messages are concatenated over the calls. -/
def feedAll (mp : Msgpack) : StreamDecoder → List Bytes → List JsValue × StreamDecoder
  | d, [] => ([], d)
  | d, chunk :: chunks =>
    let r := d.feed mp chunk
    let r' := feedAll mp r.2 chunks
    (r.1 ++ r'.1, r'.2)

theorem feedAll_append (mp : Msgpack) (xs ys : List Bytes) (d : StreamDecoder) :
    feedAll mp d (xs ++ ys) =
      ((feedAll mp d xs).1 ++ (feedAll mp (feedAll mp d xs).2 ys).1,
        (feedAll mp (feedAll mp d xs).2 ys).2) := by
  induction xs generalizing d with
  | nil => rfl
  | cons x xs ih => simp only [List.cons_append, feedAll, ih, List.append_assoc]

/-! ### What the loop pushes and counts -/

/-- The total length of the values' own encodings, up to the first that cannot be encoded. -/
def reencodedLength (mp : Msgpack) (values : List JsValue) : ℕ :=
  (((values.map mp.encode).takeWhile Option.isSome).map fun o => (o.getD []).length).sum

theorem collect_count (mp : Msgpack) (values : List JsValue) :
    (collect mp values).2 = reencodedLength mp values := by
  induction values with
  | nil => rfl
  | cons v vs ih =>
    unfold reencodedLength at ih ⊢
    cases hv : mp.encode v with
    | none => simp [collect, hv]
    | some bs => simp [collect, hv, ih]

theorem collect_initial (mp : Msgpack) (values : List JsValue) : (collect mp values).1 <+: values := by
  induction values with
  | nil => exact List.prefix_rfl
  | cons v vs ih =>
    cases hv : mp.encode v with
    | none => simp [collect, hv]
    | some bs => simpa [collect, hv] using ih

theorem collect_all_iff (mp : Msgpack) (values : List JsValue) :
    (collect mp values).1 = values ↔ ∀ v ∈ values.dropLast, (mp.encode v).isSome := by
  induction values with
  | nil => simp [collect]
  | cons v vs ih =>
    cases vs with
    | nil =>
      cases hv : mp.encode v <;> simp [collect, hv]
    | cons w ws =>
      cases hv : mp.encode v with
      | none => simp [collect, hv]
      | some bs =>
        have hstep : (collect mp (v :: w :: ws)).1 = v :: (collect mp (w :: ws)).1 := by
          simp [collect, hv]
        rw [hstep, List.cons_inj_right, ih]
        simp [hv]

/-! ### Complete values within the first bytes of a stream -/

/-- The values whose encodings lie within the first `n` bytes. -/
def completed : List Wire → ℕ → List Wire
  | [], _ => []
  | w :: ws, n => if w.bytes.length ≤ n then w :: completed ws (n - w.bytes.length) else []

def remaining (ws : List Wire) (n : ℕ) : List Wire := ws.drop (completed ws n).length

/-- Of the first `n` bytes, those after the last complete value. -/
def tailAfter (ws : List Wire) (n : ℕ) : Bytes :=
  ((bytesAll ws).take n).drop (bytesAll (completed ws n)).length

theorem completed_append_remaining (ws : List Wire) (n : ℕ) :
    completed ws n ++ remaining ws n = ws := by
  unfold remaining
  induction ws generalizing n with
  | nil => rfl
  | cons w ws ih =>
    unfold completed
    split
    · simpa using ih (n - w.bytes.length)
    · rfl

theorem completed_shift (xs ys : List Wire) (n : ℕ) :
    completed (xs ++ ys) ((bytesAll xs).length + n) = xs ++ completed ys n := by
  induction xs with
  | nil => simp [bytesAll]
  | cons x xs ih =>
    have hle : x.bytes.length ≤ (x.bytes ++ bytesAll xs).length + n := by
      rw [List.length_append]
      omega
    have hsub : (x.bytes ++ bytesAll xs).length + n - x.bytes.length = (bytesAll xs).length + n := by
      rw [List.length_append]
      omega
    simp only [List.cons_append, completed, bytesAll, hle, if_true, hsub, ih]

theorem tailAfter_shift (xs ys : List Wire) (n : ℕ) :
    tailAfter (xs ++ ys) ((bytesAll xs).length + n) = tailAfter ys n := by
  unfold tailAfter
  rw [completed_shift, bytesAll_append, bytesAll_append, List.take_length_add_append,
    List.length_append, ← List.drop_drop, List.drop_left]

theorem completed_nil (ws : List Wire) : completed ws ([] : Bytes).length = [] := by
  cases ws with
  | nil => rfl
  | cons w ws =>
    have := List.length_pos_iff.mpr (bytes_ne_nil w)
    have hw : ¬ w.bytes.length ≤ 0 := by omega
    simp [completed, hw]

theorem completed_all (ws : List Wire) : completed ws (bytesAll ws).length = ws := by
  have h := completed_shift ws [] 0
  simpa [completed] using h

theorem completed_fits (ws : List Wire) (n : ℕ) : (bytesAll (completed ws n)).length ≤ n := by
  induction ws generalizing n with
  | nil => exact Nat.zero_le n
  | cons w ws ih =>
    unfold completed
    split
    next h =>
      have := ih (n - w.bytes.length)
      simp only [bytesAll, List.length_append]
      omega
    next => exact Nat.zero_le n

theorem take_eq_completed (ws : List Wire) (n : ℕ) :
    (bytesAll ws).take n = bytesAll (completed ws n) ++ tailAfter ws n := by
  have hpre : bytesAll (completed ws n) <+: (bytesAll ws).take n := by
    refine List.prefix_take_iff.mpr ⟨?_, completed_fits ws n⟩
    conv_rhs => rw [← completed_append_remaining ws n, bytesAll_append]
    exact List.prefix_append _ _
  obtain ⟨rest, hrest⟩ := hpre
  rw [tailAfter, ← hrest, List.drop_left]

theorem tailAfter_truncated (ws : List Wire) (n : ℕ) (hv : ∀ w ∈ ws, w.Valid) :
    Truncated (tailAfter ws n) := by
  induction ws generalizing n with
  | nil => exact Or.inl (by simp [tailAfter, completed, bytesAll])
  | cons w ws ih =>
    by_cases h : w.bytes.length ≤ n
    · have hshift := tailAfter_shift [w] ws (n - w.bytes.length)
      have hn : (bytesAll [w]).length + (n - w.bytes.length) = n := by
        simp only [bytesAll, List.append_nil]
        omega
      rw [hn, List.singleton_append] at hshift
      rw [hshift]
      exact ih _ fun x hx => hv x (List.mem_cons_of_mem _ hx)
    · have ht : tailAfter (w :: ws) n = w.bytes.take n := by
        simp [tailAfter, completed, h, bytesAll, List.take_append_of_le_length (le_of_not_ge h)]
      refine Or.inr ⟨w, w.bytes.drop n, hv w (List.mem_cons_self ..), ?_, ?_⟩
      · intro hnil
        rw [List.drop_eq_nil_iff] at hnil
        exact h hnil
      · rw [ht, List.take_append_drop]

/-! ### One call -/

/-- A call on a buffered `b` and a chunk that together hold the encodings of `ws` and a beginning
of another. -/
theorem feed_complete {mp : Msgpack} (hm : mp.Documented) {ws : List Wire} {b chunk t : Bytes}
    (hv : ∀ w ∈ ws, w.Valid) (ha : ∀ w ∈ ws, accepted w = true) (ht : Truncated t)
    (hb : b ++ chunk = bytesAll ws ++ t) :
    feed mp ⟨b⟩ chunk =
      ((collect mp (ws.map mp.value)).1,
        ⟨(bytesAll ws ++ t).drop (reencodedLength mp (ws.map mp.value))⟩) := by
  simp only [feed, hb, hm.decodes ws t hv ha ht, collect_count]

theorem drop_eq_tail_iff (ws : List Wire) (t : Bytes) (n : ℕ) :
    (bytesAll ws ++ t).drop n = t ↔
      n = (bytesAll ws).length ∨ t = [] ∧ (bytesAll ws).length ≤ n := by
  constructor
  · intro h
    have hl := congrArg List.length h
    rw [List.length_drop, List.length_append] at hl
    by_cases ht : t = []
    · subst ht
      simp only [List.length_nil] at hl
      exact Or.inr ⟨rfl, by omega⟩
    · have hpos := List.length_pos_iff.mpr ht
      exact Or.inl (by omega)
  · rintro (rfl | ⟨rfl, hle⟩)
    · exact List.drop_left
    · rw [List.append_nil, List.drop_eq_nil_iff]
      exact hle

/-- The values a call completes are counted right: all but the last can be encoded again, and the
new encodings are together as long as the received ones (or longer, if the chunk ends with the
last value). -/
def CountsRight (mp : Msgpack) (ws : List Wire) (t : Bytes) : Prop :=
  (∀ w ∈ ws.dropLast, (mp.encode (mp.value w)).isSome) ∧
    (reencodedLength mp (ws.map mp.value) = (bytesAll ws).length ∨
      t = [] ∧ (bytesAll ws).length ≤ reencodedLength mp (ws.map mp.value))

theorem feed_exact_iff {mp : Msgpack} (hm : mp.Documented) {ws : List Wire} {b chunk t : Bytes}
    (hv : ∀ w ∈ ws, w.Valid) (ha : ∀ w ∈ ws, accepted w = true) (ht : Truncated t)
    (hb : b ++ chunk = bytesAll ws ++ t) :
    feed mp ⟨b⟩ chunk = (ws.map mp.value, ⟨t⟩) ↔ CountsRight mp ws t := by
  rw [feed_complete hm hv ha ht hb, Prod.mk.injEq, collect_all_iff, StreamDecoder.mk.injEq,
    drop_eq_tail_iff, ← List.map_dropLast, List.forall_mem_map]
  rfl

/-! ### Every sequence of calls -/

/-- The bytes received when `b` is buffered and `j` of the chunks have been fed. -/
def bytesSeen (b : Bytes) (chunks : List Bytes) (j : ℕ) : ℕ :=
  b.length + (chunks.take j).flatten.length

def arrivals (ws : List Wire) (b : Bytes) (chunks : List Bytes) (j : ℕ) : List Wire :=
  (completed ws (bytesSeen b chunks (j + 1))).drop (completed ws (bytesSeen b chunks j)).length

/-- After every call the buffer is what follows the last complete value. -/
def BuffersRight (mp : Msgpack) (ws : List Wire) (b : Bytes) (chunks : List Bytes) : Prop :=
  ∀ j ≤ chunks.length,
    (feedAll mp ⟨b⟩ (chunks.take j)).2.buffer = tailAfter ws (bytesSeen b chunks j)

/-- The messages are exactly the values, and after every call the buffer is what follows the last
complete one. -/
def Exact (mp : Msgpack) (ws : List Wire) (b : Bytes) (chunks : List Bytes) : Prop :=
  (feedAll mp ⟨b⟩ chunks).1 = ws.map mp.value ∧ BuffersRight mp ws b chunks

/- One call, seen from before it: `b` is buffered and begins the encodings of `ws`, none of which
it holds completely. -/
section Call

variable {mp : Msgpack} {ws : List Wire} {b chunk : Bytes} {chunks : List Bytes}

theorem bytesSeen_cons (n : ℕ) (hn : b.length + chunk.length = (bytesAll (completed ws n)).length +
    (tailAfter ws n).length) (j : ℕ) :
    bytesSeen b (chunk :: chunks) (j + 1) =
      (bytesAll (completed ws n)).length + bytesSeen (tailAfter ws n) chunks j := by
  simp only [bytesSeen, List.take_succ_cons, List.flatten_cons, List.length_append]
  omega

theorem call_bytes (hb : b ++ (chunk :: chunks).flatten = bytesAll ws) :
    b ++ chunk = bytesAll (completed ws (b.length + chunk.length)) ++
      tailAfter ws (b.length + chunk.length) := by
  rw [← take_eq_completed, ← hb, List.flatten_cons, ← List.append_assoc, ← List.length_append,
    List.take_left]

theorem call_length (hb : b ++ (chunk :: chunks).flatten = bytesAll ws) :
    b.length + chunk.length = (bytesAll (completed ws (b.length + chunk.length))).length +
      (tailAfter ws (b.length + chunk.length)).length := by
  have h := congrArg List.length (call_bytes hb)
  rwa [List.length_append, List.length_append] at h

theorem call_rest (hb : b ++ (chunk :: chunks).flatten = bytesAll ws) :
    tailAfter ws (b.length + chunk.length) ++ chunks.flatten =
      bytesAll (remaining ws (b.length + chunk.length)) := by
  have h := hb
  rw [List.flatten_cons, ← List.append_assoc, call_bytes hb] at h
  conv_rhs at h => rw [← completed_append_remaining ws (b.length + chunk.length), bytesAll_append]
  rw [List.append_assoc] at h
  exact List.append_cancel_left h

theorem call_open (hb : b ++ (chunk :: chunks).flatten = bytesAll ws) :
    completed (remaining ws (b.length + chunk.length))
      (tailAfter ws (b.length + chunk.length)).length = [] := by
  have h := completed_shift (completed ws (b.length + chunk.length))
    (remaining ws (b.length + chunk.length)) (tailAfter ws (b.length + chunk.length)).length
  rw [completed_append_remaining, ← call_length hb] at h
  exact List.self_eq_append_right.mp h

theorem completed_call (hb : b ++ (chunk :: chunks).flatten = bytesAll ws) (j : ℕ) :
    completed ws (bytesSeen b (chunk :: chunks) (j + 1)) =
      completed ws (b.length + chunk.length) ++
        completed (remaining ws (b.length + chunk.length))
          (bytesSeen (tailAfter ws (b.length + chunk.length)) chunks j) := by
  rw [bytesSeen_cons _ (call_length hb), ← completed_shift, completed_append_remaining]

theorem tailAfter_call (hb : b ++ (chunk :: chunks).flatten = bytesAll ws) (j : ℕ) :
    tailAfter ws (bytesSeen b (chunk :: chunks) (j + 1)) =
      tailAfter (remaining ws (b.length + chunk.length))
        (bytesSeen (tailAfter ws (b.length + chunk.length)) chunks j) := by
  have h := tailAfter_shift (completed ws (b.length + chunk.length))
    (remaining ws (b.length + chunk.length))
    (bytesSeen (tailAfter ws (b.length + chunk.length)) chunks j)
  rwa [completed_append_remaining, ← bytesSeen_cons _ (call_length hb)] at h

theorem arrivals_zero (ho : completed ws b.length = []) :
    arrivals ws b (chunk :: chunks) 0 = completed ws (b.length + chunk.length) := by
  simp [arrivals, bytesSeen, ho]

theorem arrivals_succ (hb : b ++ (chunk :: chunks).flatten = bytesAll ws) (j : ℕ) :
    arrivals ws b (chunk :: chunks) (j + 1) =
      arrivals (remaining ws (b.length + chunk.length)) (tailAfter ws (b.length + chunk.length))
        chunks j := by
  rw [arrivals, completed_call hb, completed_call hb, List.length_append, List.drop_append,
    arrivals]
  simp

theorem tailAfter_open (hb : b ++ chunks.flatten = bytesAll ws) (ho : completed ws b.length = []) :
    tailAfter ws b.length = b := by
  simp [tailAfter, ho, ← hb, bytesAll]

theorem buffersRight_cons (hb : b ++ (chunk :: chunks).flatten = bytesAll ws)
    (ho : completed ws b.length = []) :
    BuffersRight mp ws b (chunk :: chunks) ↔
      (feed mp ⟨b⟩ chunk).2 = ⟨tailAfter ws (b.length + chunk.length)⟩ ∧
        BuffersRight mp (remaining ws (b.length + chunk.length))
          (tailAfter ws (b.length + chunk.length)) chunks := by
  have hsplit : BuffersRight mp ws b (chunk :: chunks) ↔
      ∀ j ≤ chunks.length, (feedAll mp (feed mp ⟨b⟩ chunk).2 (chunks.take j)).2.buffer =
        tailAfter (remaining ws (b.length + chunk.length))
          (bytesSeen (tailAfter ws (b.length + chunk.length)) chunks j) := by
    constructor
    · intro h j hj
      have := h (j + 1) (Nat.succ_le_succ hj)
      rwa [tailAfter_call hb] at this
    · intro h j hj
      cases j with
      | zero =>
        have : bytesSeen b (chunk :: chunks) 0 = b.length := by simp [bytesSeen]
        rw [this, tailAfter_open hb ho]
        rfl
      | succ j =>
        rw [tailAfter_call hb]
        exact h j (Nat.le_of_succ_le_succ hj)
  rw [hsplit]
  constructor
  · intro h
    have h0 := h 0 (Nat.zero_le _)
    have hfirst : (feed mp ⟨b⟩ chunk).2 = ⟨tailAfter ws (b.length + chunk.length)⟩ := by
      have hseen : bytesSeen (tailAfter ws (b.length + chunk.length)) chunks 0 =
          (tailAfter ws (b.length + chunk.length)).length := by simp [bytesSeen]
      rw [hseen, tailAfter_open (call_rest hb) (call_open hb)] at h0
      exact congrArg StreamDecoder.mk h0
    rw [hfirst] at h
    exact ⟨hfirst, h⟩
  · rintro ⟨hfirst, h⟩
    rw [hfirst]
    exact h

theorem completed_valid (hv : ∀ w ∈ ws, w.Valid) (n : ℕ) :
    (∀ w ∈ completed ws n, w.Valid) ∧ ∀ w ∈ remaining ws n, w.Valid := by
  rw [← List.forall_mem_append, completed_append_remaining]
  exact hv

theorem completed_accepted (ha : ∀ w ∈ ws, accepted w = true) (n : ℕ) :
    (∀ w ∈ completed ws n, accepted w = true) ∧ ∀ w ∈ remaining ws n, accepted w = true := by
  rw [← List.forall_mem_append, completed_append_remaining]
  exact ha

theorem call_pushes (hm : mp.Documented) (hv : ∀ w ∈ ws, w.Valid)
    (ha : ∀ w ∈ ws, accepted w = true) (hb : b ++ (chunk :: chunks).flatten = bytesAll ws) :
    (feed mp ⟨b⟩ chunk).1 <+: (completed ws (b.length + chunk.length)).map mp.value := by
  rw [feed_complete hm (completed_valid hv _).1 (completed_accepted ha _).1
    (tailAfter_truncated ws _ hv) (call_bytes hb)]
  exact collect_initial mp _

end Call

theorem messages_le {mp : Msgpack} (hm : mp.Documented) (chunks : List Bytes) :
    ∀ (b : Bytes) (ws : List Wire), (∀ w ∈ ws, w.Valid) → (∀ w ∈ ws, accepted w = true) →
      completed ws b.length = [] → b ++ chunks.flatten = bytesAll ws →
      BuffersRight mp ws b chunks → (feedAll mp ⟨b⟩ chunks).1.length ≤ ws.length := by
  induction chunks with
  | nil =>
    intro b ws _ _ _ _ _
    exact Nat.zero_le _
  | cons chunk chunks ih =>
    intro b ws hv ha ho hb hr
    obtain ⟨hfirst, hr'⟩ := (buffersRight_cons hb ho).mp hr
    have hcall := (call_pushes hm hv ha hb).length_le
    have hrest := ih _ _ (completed_valid hv _).2 (completed_accepted ha _).2 (call_open hb)
      (call_rest hb) hr'
    have hlen := congrArg List.length (completed_append_remaining ws (b.length + chunk.length))
    rw [List.length_append] at hlen
    rw [List.length_map] at hcall
    simp only [feedAll, List.length_append, hfirst]
    omega

theorem exact_cons {mp : Msgpack} (hm : mp.Documented) {ws : List Wire} {b chunk : Bytes}
    {chunks : List Bytes} (hv : ∀ w ∈ ws, w.Valid) (ha : ∀ w ∈ ws, accepted w = true)
    (ho : completed ws b.length = []) (hb : b ++ (chunk :: chunks).flatten = bytesAll ws) :
    Exact mp ws b (chunk :: chunks) ↔
      CountsRight mp (completed ws (b.length + chunk.length))
          (tailAfter ws (b.length + chunk.length)) ∧
        Exact mp (remaining ws (b.length + chunk.length))
          (tailAfter ws (b.length + chunk.length)) chunks := by
  have hcall := feed_exact_iff hm (completed_valid hv _).1 (completed_accepted ha _).1
    (tailAfter_truncated ws _ hv) (call_bytes hb)
  have hvalues : ws.map mp.value = (completed ws (b.length + chunk.length)).map mp.value ++
      (remaining ws (b.length + chunk.length)).map mp.value := by
    rw [← List.map_append, completed_append_remaining]
  rw [← hcall, Exact, Exact, buffersRight_cons hb ho, hvalues]
  simp only [feedAll]
  constructor
  · rintro ⟨hmsgs, hfirst, hr⟩
    rw [hfirst] at hmsgs
    have hpre := call_pushes hm hv ha hb
    have hrest := messages_le hm chunks _ _ (completed_valid hv _).2 (completed_accepted ha _).2
      (call_open hb) (call_rest hb) hr
    -- The messages of all calls are as many as the values, and no call pushes too many: so the
    -- first pushes all of its own.
    have hlen := congrArg List.length hmsgs
    rw [List.length_append, List.length_append, List.length_map, List.length_map] at hlen
    have hfull : (feed mp ⟨b⟩ chunk).1 =
        (completed ws (b.length + chunk.length)).map mp.value := by
      refine hpre.eq_of_length_le ?_
      rw [List.length_map]
      omega
    refine ⟨Prod.ext hfull hfirst, ?_, hr⟩
    rw [hfull] at hmsgs
    exact List.append_cancel_left hmsgs
  · rintro ⟨hfirst, hmsgs, hr⟩
    rw [hfirst]
    exact ⟨by rw [hmsgs], rfl, hr⟩

theorem exactFrom_iff {mp : Msgpack} (hm : mp.Documented) (chunks : List Bytes) :
    ∀ (b : Bytes) (ws : List Wire), (∀ w ∈ ws, w.Valid) → (∀ w ∈ ws, accepted w = true) →
      completed ws b.length = [] → b ++ chunks.flatten = bytesAll ws →
      (Exact mp ws b chunks ↔ ∀ j < chunks.length,
        CountsRight mp (arrivals ws b chunks j) (tailAfter ws (bytesSeen b chunks (j + 1)))) := by
  induction chunks with
  | nil =>
    intro b ws _ _ ho hb
    have hb' : b = bytesAll ws := by simpa using hb
    have hws : ws = [] := by rw [← completed_all ws, ← hb', ho]
    subst hws
    refine ⟨fun _ j hj => absurd hj (Nat.not_lt_zero j), fun _ => ⟨rfl, ?_⟩⟩
    intro j hj
    obtain rfl : j = 0 := Nat.le_zero.mp hj
    simp [feedAll, tailAfter, bytesAll, hb', completed]
  | cons chunk chunks ih =>
    intro b ws hv ha ho hb
    rw [exact_cons hm hv ha ho hb, ih _ _ (completed_valid hv _).2 (completed_accepted ha _).2
      (call_open hb) (call_rest hb)]
    have hseen : bytesSeen b (chunk :: chunks) 1 = b.length + chunk.length := by simp [bytesSeen]
    constructor
    · rintro ⟨hfirst, hrest⟩ j hj
      cases j with
      | zero =>
        rw [arrivals_zero ho, hseen]
        exact hfirst
      | succ j =>
        rw [arrivals_succ hb, tailAfter_call hb]
        exact hrest j (Nat.lt_of_succ_lt_succ hj)
    · intro h
      constructor
      · have h0 := h 0 (Nat.succ_pos _)
        rwa [arrivals_zero ho, hseen] at h0
      · intro j hj
        have hj' := h (j + 1) (Nat.succ_lt_succ hj)
        rwa [arrivals_succ hb, tailAfter_call hb] at hj'

/-- However the encodings of a sequence of values are cut into chunks, a decoder fed with them is
exact if and only if every call's values are counted right. -/
theorem streamDecoder_exact_iff (mp : Msgpack) (hm : mp.Documented) (ws : List Wire)
    (hv : ∀ w ∈ ws, w.Valid) (ha : ∀ w ∈ ws, accepted w = true) (chunks : List Bytes)
    (hc : chunks.flatten = bytesAll ws) :
    Exact mp ws [] chunks ↔ ∀ j < chunks.length,
      CountsRight mp (arrivals ws [] chunks j) (tailAfter ws (bytesSeen [] chunks (j + 1))) := by
  exact exactFrom_iff hm chunks [] ws hv ha (completed_nil ws) hc

/-- The notification `[2, "go", []]`. -/
def goNotification : Wire := .array .fix [.int .positiveFix 2, .str .fix "go", .array .fix []]

theorem goNotification_exact :
    Exact reference [goNotification] [] [[0x93, 0x02, 0xa2], [0x67, 0x6f, 0x90]] := by
  refine (streamDecoder_exact_iff reference reference_documented [goNotification] ?_ (by decide)
    [[0x93, 0x02, 0xa2], [0x67, 0x6f, 0x90]] (by decide)).mpr ?_
  · simp [goNotification, Wire.Valid, validAll, IntFormat.Fits]
    decide
  · intro j hj
    have hj' : j = 0 ∨ j = 1 := by
      change j < 2 at hj
      omega
    rcases hj' with rfl | rfl
    · exact ⟨by decide, by decide⟩
    · exact ⟨by decide, by decide⟩

/-- The response `[1, 1, null, 5]` with its `msgid` in the `uint8` format. -/
def wideResponse : Wire :=
  .array .fix [.int .positiveFix 1, .int .uint8 1, .nil, .int .positiveFix 5]

theorem wideResponse_valid : ∀ w ∈ [wideResponse], w.Valid := by
  simp [wideResponse, Wire.Valid, validAll, Kind.Fits, Kind.tag, IntFormat.Fits, IntFormat.isSigned,
    IntFormat.width]

theorem wideResponse_inexact :
    reference.Documented ∧ (∀ w ∈ [wideResponse], w.Valid) ∧
      (∀ w ∈ [wideResponse], accepted w = true) ∧
      [wideResponse.bytes].flatten = bytesAll [wideResponse] ∧
      ¬ Exact reference [wideResponse] [] [wideResponse.bytes] := by
  refine ⟨reference_documented, wideResponse_valid, by decide, by decide, ?_⟩
  intro h
  have hb := h.2 1 (le_refl 1)
  exact absurd hb (by decide)

end StreamDecoder

end UnoQ.Codec
