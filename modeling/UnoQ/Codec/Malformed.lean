import Mathlib.Data.List.Induction
import UnoQ.Codec.StreamDecoder
import UnoQ.Lib.MessagePackItems

/-!
# Malformed input

The `catch` of `feed` takes everything that decoding may throw for an incomplete message at the end
of the buffer. A byte or a map key that the decoder refuses is kept there like one, and no caller
gets to know: the bytes behind it are kept as well, whatever they are.
-/

namespace UnoQ.Codec
open MessagePack BigEndian SequentialDecoding

theorem sequential_reference : Sequential reference.decodeMulti :=
  (sequential_readAll accepted).mapped (jsValue referenceConversions)

namespace StreamDecoder

/-- What ends the loop of `feed` before its time. -/
inductive Thrown
  | decoding
  | encoding
  deriving DecidableEq

/-- The `try` block: the messages and the count it comes to, and what it throws. -/
def attempt (mp : Msgpack) (combined : Bytes) : (List JsValue × ℕ) × Option Thrown :=
  let decoded := mp.decodeMulti combined
  let thrown :=
    if decoded.1.any fun v => (mp.encode v).isNone then some .encoding
    else if decoded.2 then some .decoding
    else none
  (collect mp decoded.1, thrown)

/-- A call of `feed` as its caller sees it. The `catch` does not look at what it has caught. -/
def call (mp : Msgpack) (d : StreamDecoder) (chunk : Bytes) :
    Except Thrown (List JsValue) × StreamDecoder :=
  let combined := d.buffer ++ chunk
  let (r, thrown) := attempt mp combined
  match thrown with
  | some _ => (.ok r.1, ⟨combined.drop r.2⟩)
  | none => (.ok r.1, ⟨combined.drop r.2⟩)

theorem call_eq (mp : Msgpack) (d : StreamDecoder) (chunk : Bytes) :
    d.call mp chunk = (.ok (d.feed mp chunk).1, (d.feed mp chunk).2) := by
  unfold call attempt feed
  dsimp only
  split
  · rfl
  · rfl

/-- The decoder between two calls. -/
def after (mp : Msgpack) (chunks : List Bytes) : StreamDecoder := (feedAll mp .fresh chunks).2

/-- After every call the buffer is what has come of a message that more bytes may complete, or the
caller got an exception. -/
def Noticed (mp : Msgpack) (chunks : List Bytes) : Prop :=
  ∀ before chunk rest, chunks = before ++ chunk :: rest →
    (∃ e, ((after mp before).call mp chunk).1 = .error e) ∨
      Beginning mp.decodeMulti ((after mp before).call mp chunk).2.buffer

/-- The values of a call, encoded again, are together as long as the received ones (or longer, if
nothing is left behind them). -/
def Counted (mp : Msgpack) (items : List (Bytes × JsValue)) (t : Bytes) : Prop :=
  reencodedLength mp (values items) = (bytes items).length ∨
    t = [] ∧ (bytes items).length ≤ reencodedLength mp (values items)

def AllCounted (mp : Msgpack) (chunks : List Bytes) : Prop :=
  ∀ before chunk rest, chunks = before ++ chunk :: rest → ∀ items t,
    Splits mp.decodeMulti ((after mp before).buffer ++ chunk) items t → Counted mp items t

variable {mp : Msgpack} {chunks more : List Bytes} {items : List (Bytes × JsValue)} {s t : Bytes}

theorem after_snoc (mp : Msgpack) (chunks : List Bytes) (chunk : Bytes) :
    after mp (chunks ++ [chunk]) = ((after mp chunks).feed mp chunk).2 := by
  unfold after
  rw [feedAll_append]
  rfl

theorem AllCounted.initial (h : AllCounted mp (chunks ++ more)) : AllCounted mp chunks := by
  intro before chunk rest heq items t hs
  refine h before chunk (rest ++ more) ?_ items t hs
  rw [heq, List.append_assoc, List.cons_append]

theorem feed_counted (h : Sequential mp.decodeMulti) {d : StreamDecoder} {chunk : Bytes}
    (hs : Splits mp.decodeMulti (d.buffer ++ chunk) items t) (hc : Counted mp items t) :
    (d.feed mp chunk).2.buffer = t := by
  simp only [feed, hs.decode_eq h, collect_count]
  rw [hs.eq]
  rcases hc with hc | ⟨rfl, hc⟩
  · rw [hc, List.drop_left]
  · rw [List.append_nil, List.drop_eq_nil_iff]
    exact hc

/-- As long as all calls count right, the buffer is what is left of the whole stream. -/
theorem split_after (h : Sequential mp.decodeMulti) (hc : AllCounted mp chunks) :
    ∃ items, Splits mp.decodeMulti chunks.flatten items (after mp chunks).buffer := by
  induction chunks using List.reverseRecOn with
  | nil => exact ⟨[], by simp, rfl, h.unfinished_nil⟩
  | append_singleton chunks chunk ih =>
    obtain ⟨items, hs⟩ := ih hc.initial
    obtain ⟨items', t, hmore⟩ := h.exists_split _ ((after mp chunks).buffer ++ chunk) le_rfl
    have hcount := hc chunks chunk [] rfl items' t hmore
    have hbuffer := feed_counted h hmore hcount
    rw [after_snoc, hbuffer, List.flatten_append, List.flatten_singleton]
    exact ⟨items ++ items', hs.append hmore⟩

/-- In a stream whose values are counted right, nothing goes unnoticed if and only if all of it is
encodings that the decoder accepts, up to the beginning of one. -/
theorem noticed_iff (mp : Msgpack) (h : Sequential mp.decodeMulti) (chunks : List Bytes)
    (hc : AllCounted mp chunks) : Noticed mp chunks ↔ Decodable mp.decodeMulti chunks.flatten := by
  constructor
  · intro hn
    induction chunks using List.reverseRecOn with
    | nil => exact ⟨[], [], by simp, rfl, Or.inl rfl⟩
    | append_singleton chunks chunk _ =>
      obtain ⟨items, hs⟩ := split_after h hc
      have hlast := hn chunks chunk [] rfl
      rw [call_eq, ← after_snoc] at hlast
      rcases hlast with ⟨e, he⟩ | hb
      · contradiction
      · exact hs.decodable hb
  · rintro hd before chunk rest rfl
    have hsplit : before ++ chunk :: rest = (before ++ [chunk]) ++ rest := by simp
    rw [hsplit] at hc hd
    rw [List.flatten_append] at hd
    obtain ⟨items, hs⟩ := split_after h hc.initial
    have hb := (hs.decodable_iff h).mp hd.initial
    rw [call_eq, ← after_snoc]
    exact Or.inr hb

/-- Behind bytes that no input can complete everything is kept, and nothing decoded. -/
theorem stalled (h : Sequential mp.decodeMulti) (chunks : List Bytes) : ∀ d : StreamDecoder,
    (∀ u, Unfinished mp.decodeMulti (d.buffer ++ u)) →
      feedAll mp d chunks = ([], ⟨d.buffer ++ chunks.flatten⟩) := by
  induction chunks with
  | nil =>
    intro d _
    simp [feedAll]
  | cons chunk chunks ih =>
    intro d hstuck
    have hdecode := h.decode_unfinished (hstuck chunk)
    have hfeed : d.feed mp chunk = ([], ⟨d.buffer ++ chunk⟩) := by
      simp [feed, hdecode, collect]
    have hrest := ih ⟨d.buffer ++ chunk⟩ fun u => by
      rw [List.append_assoc]
      exact hstuck (chunk ++ u)
    simp only [feedAll, hfeed, hrest, List.nil_append, List.flatten_cons, List.append_assoc]

/-! ### A stream that is decoded, and one that is not -/

theorem counted_of_none (h : Sequential mp.decodeMulti) (hs : Splits mp.decodeMulti s items t)
    (hnone : (mp.decodeMulti s).1.isEmpty = true) : Counted mp items t := by
  rw [hs.decode_eq h, List.isEmpty_iff] at hnone
  have hitems : items = [] := List.map_eq_nil_iff.mp hnone
  subst hitems
  exact Or.inl rfl

theorem counted_of_whole (h : Sequential mp.decodeMulti) (hs : Splits mp.decodeMulti s items t)
    (hend : (mp.decodeMulti s).2 = false)
    (hlen : s.length ≤ reencodedLength mp (mp.decodeMulti s).1) : Counted mp items t := by
  have hread := hs.decode_eq h
  rw [hread] at hend hlen
  have ht : t = [] := by simpa using hend
  subst ht
  have hs' := hs.eq
  rw [List.append_nil] at hs'
  rw [hs'] at hlen
  exact Or.inr ⟨rfl, hlen⟩

theorem goNotification_valid : goNotification.Valid := by
  simp [goNotification, Wire.Valid, validAll, IntFormat.Fits]
  decide

theorem goChunks_counted :
    AllCounted reference [[0x93, 0x02, 0xa2], [0x67, 0x6f, 0x90]] := by
  intro before chunk rest heq items t hs
  match before with
  | [] =>
    cases heq
    exact counted_of_none sequential_reference hs (by decide +kernel)
  | [first] =>
    cases heq
    exact counted_of_whole sequential_reference hs (by decide +kernel) (by decide +kernel)
  | first :: second :: before => simp at heq

theorem goChunks_noticed : Noticed reference [[0x93, 0x02, 0xa2], [0x67, 0x6f, 0x90]] :=
  (noticed_iff reference sequential_reference [[0x93, 0x02, 0xa2], [0x67, 0x6f, 0x90]]
    goChunks_counted).mpr
    ⟨[(goNotification.bytes, reference.value goNotification)], [], by
      intro p hp
      rw [List.mem_singleton.mp hp]
      have hread := parseOne_bytes goNotification_valid []
      rw [List.append_nil] at hread
      exact accepts_mapped.mpr
        ⟨goNotification, (accepts_readAll accepted).mpr ⟨hread, by decide⟩, rfl⟩, by decide, Or.inl rfl⟩

/-- The byte 0xc1, which begins no value. -/
theorem invalidByte_unnoticed :
    ¬ ∀ mp : Msgpack, Sequential mp.decodeMulti → ∀ chunks, Noticed mp chunks := by
  intro hall
  have hparse : ∀ u : Bytes, parseOne (0xc1 :: u) = .malformed := fun u => rfl
  rcases hall reference sequential_reference [[0xc1]] [] [0xc1] [] rfl with ⟨e, he⟩ | hb
  · rw [call_eq] at he
    contradiction
  · have hbuffer : ((after reference []).call reference [0xc1]).2.buffer = [0xc1] := by
      decide +kernel
    rw [hbuffer] at hb
    rcases hb with hnil | ⟨u, v, -, hv⟩
    · contradiction
    · obtain ⟨w, hw, -⟩ := accepts_mapped.mp hv
      have hone := ((accepts_readAll accepted).mp hw).1
      rw [List.singleton_append, hparse] at hone
      contradiction

end StreamDecoder

end UnoQ.Codec
