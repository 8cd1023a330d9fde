/-
# Fragment headers and splitting

A message that does not fit one packet is cut into chunks of at most 1155
bytes, each behind a fixed five-byte header. The chunks of a message determine
it, and a fragment that is parsed gives back its header and chunk.
-/

import Fastwire.Wire.Packet

namespace Fastwire

structure FragmentHeader where
  fragmentID : UInt16
  fragmentIndex : UInt8
  fragmentCount : UInt8
  fragmentFlags : UInt8
  deriving DecidableEq, Repr

def fragmentHeaderSize : ℕ := 5

def maxFragments : ℕ := 255

/-- `MaxFragmentPayload`: the default MTU of 1200 without encryption overhead
and the two headers. -/
def maxFragmentPayload : ℕ := 1200 - 24 - 16 - 5

def fragFlagCompressed : UInt8 := 1

def fragFlagZstd : UInt8 := 2

/-- `MarshalFragmentHeader` on a buffer with the given room. -/
def marshalFragmentHeader (room : ℕ) (h : FragmentHeader) : Except Err Bytes :=
  if room < fragmentHeaderSize then .error .invalidFragmentHeader
  else .ok [UInt8.ofNat (h.fragmentID.toNat >>> 8), UInt8.ofNat h.fragmentID.toNat,
    h.fragmentIndex, h.fragmentCount, h.fragmentFlags]

/-- `UnmarshalFragmentHeader`: the header and the number of bytes consumed. -/
def unmarshalFragmentHeader : Bytes → Except Err (FragmentHeader × ℕ)
  | hi :: lo :: index :: count :: flags :: _ =>
      .ok (⟨UInt16.ofNat (hi.toNat * 2 ^ 8 + lo.toNat), index, count, flags⟩, fragmentHeaderSize)
  | _ => .error .invalidFragmentHeader

/-- The bytes `payload[i*MaxFragmentPayload : min((i+1)*MaxFragmentPayload, len)]`. -/
def chunk (payload : Bytes) (i : ℕ) : Bytes :=
  (payload.drop (i * maxFragmentPayload)).take maxFragmentPayload

def fragmentCount (payload : Bytes) : ℕ :=
  if payload.length > maxFragmentPayload then
    (payload.length + maxFragmentPayload - 1) / maxFragmentPayload
  else 1

/-- One round of the loop of `splitMessage`. -/
def splitFragment (payload : Bytes) (fragmentID : UInt16) (flags : UInt8) (i : ℕ) :
    Except Err Bytes :=
  let h : FragmentHeader := ⟨fragmentID, UInt8.ofNat i, UInt8.ofNat (fragmentCount payload), flags⟩
  (marshalFragmentHeader (fragmentHeaderSize + (chunk payload i).length) h).map
    (· ++ chunk payload i)

def splitMessage (payload : Bytes) (fragmentID : UInt16) (flags : UInt8) :
    Except Err (List Bytes) :=
  if fragmentCount payload > maxFragments then .error .messageTooLarge
  else (List.range (fragmentCount payload)).mapM (splitFragment payload fragmentID flags)

/-! ## Parsing what was split -/

def fragmentHeader (payload : Bytes) (fragmentID : UInt16) (flags : UInt8) (i : ℕ) :
    FragmentHeader :=
  ⟨fragmentID, UInt8.ofNat i, UInt8.ofNat (fragmentCount payload), flags⟩

theorem unmarshalFragmentHeader_marshal {room : ℕ} {h : FragmentHeader} {bs : Bytes}
    (rest : Bytes) (hok : marshalFragmentHeader room h = .ok bs) :
    unmarshalFragmentHeader (bs ++ rest) = .ok (h, bs.length) ∧ bs.length = fragmentHeaderSize := by
  rw [marshalFragmentHeader] at hok
  split at hok
  · cases hok
  · cases hok
    refine ⟨?_, rfl⟩
    have hid : UInt16.ofNat ((UInt8.ofNat (h.fragmentID.toNat >>> 8)).toNat * 2 ^ 8 +
        (UInt8.ofNat h.fragmentID.toNat).toNat) = h.fragmentID := by
      have hlt := h.fragmentID.toNat_lt
      apply UInt16.toNat_inj.mp
      rw [UInt16.toNat_ofNat', UInt8.toNat_ofNat', UInt8.toNat_ofNat', Nat.shiftRight_eq_div_pow]
      omega
    simp only [List.cons_append, List.nil_append, unmarshalFragmentHeader, hid]
    rfl

/-- Each fragment parses to its header, followed by its chunk. -/
theorem splitFragment_ok (payload : Bytes) (fragmentID : UInt16) (flags : UInt8) (i : ℕ) :
    ∃ bs, splitFragment payload fragmentID flags i = .ok bs ∧
      unmarshalFragmentHeader bs =
        .ok (fragmentHeader payload fragmentID flags i, fragmentHeaderSize) ∧
      bs.drop fragmentHeaderSize = chunk payload i := by
  cases hmarshal : marshalFragmentHeader (fragmentHeaderSize + (chunk payload i).length)
      (fragmentHeader payload fragmentID flags i) with
  | error e =>
      rw [marshalFragmentHeader, if_neg (by omega)] at hmarshal
      cases hmarshal
  | ok bs =>
      obtain ⟨hparse, hlen⟩ := unmarshalFragmentHeader_marshal (chunk payload i) hmarshal
      refine ⟨bs ++ chunk payload i, ?_, by rw [hparse, hlen], by rw [← hlen, List.drop_left]⟩
      simp only [fragmentHeader] at hmarshal
      simp only [splitFragment, hmarshal, Except.map]

theorem mapM_ok {α β ε : Type} {f : α → Except ε β} {l : List α} {bs : List β}
    (hok : l.mapM f = .ok bs) :
    bs.length = l.length ∧
      ∀ (i : ℕ) (a : α), l[i]? = some a → ∃ b, bs[i]? = some b ∧ f a = .ok b := by
  induction l generalizing bs with
  | nil =>
      cases hok
      simp
  | cons a l ih =>
      rw [List.mapM_cons] at hok
      cases hhead : f a with
      | error e => simp [hhead, bind, Except.bind] at hok
      | ok b =>
          cases htail : l.mapM f with
          | error e => simp [hhead, htail, bind, Except.bind] at hok
          | ok bs' =>
              simp only [hhead, htail, bind, Except.bind, pure, Except.pure,
                Except.ok.injEq] at hok
              subst hok
              obtain ⟨hlen, hget⟩ := ih htail
              refine ⟨by simp [hlen], ?_⟩
              intro i a' hi
              cases i with
              | zero =>
                  simp only [List.getElem?_cons_zero, Option.some.injEq] at hi
                  exact ⟨b, rfl, hi ▸ hhead⟩
              | succ i => simpa using hget i a' (by simpa using hi)

/-- What a successful split consists of: as many fragments as the count says,
the `i`-th with header `i` and chunk `i`. -/
theorem splitMessage_ok {payload : Bytes} {fragmentID : UInt16} {flags : UInt8}
    {fragments : List Bytes} (hok : splitMessage payload fragmentID flags = .ok fragments) :
    fragments.length = fragmentCount payload ∧ fragmentCount payload ≤ maxFragments ∧
    ∀ i frag, fragments[i]? = some frag →
      unmarshalFragmentHeader frag =
        .ok (fragmentHeader payload fragmentID flags i, fragmentHeaderSize) ∧
      frag.drop fragmentHeaderSize = chunk payload i := by
  rw [splitMessage] at hok
  split at hok
  · cases hok
  · rename_i hcount
    obtain ⟨hlen, hget⟩ := mapM_ok hok
    rw [List.length_range] at hlen
    refine ⟨hlen, by omega, ?_⟩
    intro i frag hi
    have hlt : i < fragmentCount payload := hlen ▸ (List.getElem?_eq_some_iff.mp hi).1
    obtain ⟨frag', hfrag', hsplit⟩ := hget i i (by simp [hlt])
    obtain ⟨bs, hbs, hparse, hdrop⟩ := splitFragment_ok payload fragmentID flags i
    have heq : frag = bs := by
      rw [hfrag', Option.some.injEq] at hi
      rw [hsplit, Except.ok.injEq] at hbs
      rw [← hi, hbs]
    exact heq ▸ ⟨hparse, hdrop⟩

/-- Only the number of fragments can be too large. -/
theorem splitMessage_of_le {payload : Bytes} (hcount : fragmentCount payload ≤ maxFragments)
    (fragmentID : UInt16) (flags : UInt8) :
    ∃ fragments, splitMessage payload fragmentID flags = .ok fragments := by
  rw [splitMessage, if_neg (by omega)]
  induction List.range (fragmentCount payload) with
  | nil => exact ⟨[], rfl⟩
  | cons i is ih =>
      obtain ⟨fragments, htail⟩ := ih
      obtain ⟨bs, hhead, -⟩ := splitFragment_ok payload fragmentID flags i
      refine ⟨bs :: fragments, ?_⟩
      rw [List.mapM_cons, hhead, htail]
      rfl

/-- The chunks of a payload, in order. -/
def chunks (payload : Bytes) : List Bytes :=
  (List.range (fragmentCount payload)).map (chunk payload)

@[simp]
theorem chunks_length (payload : Bytes) : (chunks payload).length = fragmentCount payload := by
  simp [chunks]

/-- A fragment says which chunk it carries. -/
theorem splitMessage_fragment {payload : Bytes} {fragmentID : UInt16} {flags : UInt8}
    {fragments : List Bytes} (hok : splitMessage payload fragmentID flags = .ok fragments) {i : ℕ}
    {frag : Bytes} (hfrag : fragments[i]? = some frag) :
    unmarshalFragmentHeader frag = .ok (⟨fragmentID, UInt8.ofNat i,
        UInt8.ofNat (chunks payload).length, flags⟩, fragmentHeaderSize) ∧
      (chunks payload)[i]? = some (frag.drop fragmentHeaderSize) := by
  obtain ⟨hlength, -, hparse⟩ := splitMessage_ok hok
  obtain ⟨hheader, hdrop⟩ := hparse i frag hfrag
  have hlt : i < fragmentCount payload := hlength ▸ (List.getElem?_eq_some_iff.mp hfrag).1
  refine ⟨by rw [hheader, chunks_length]; rfl, ?_⟩
  rw [hdrop, chunks, List.getElem?_map, List.getElem?_range hlt]
  rfl

theorem fragmentCount_pos (payload : Bytes) : 0 < fragmentCount payload := by
  have hmax : maxFragmentPayload = 1155 := rfl
  rw [fragmentCount, hmax]
  split <;> omega

/-- Enough chunks cover the payload. -/
theorem flatten_chunks_take (payload : Bytes) (n : ℕ) :
    ((List.range n).map (chunk payload)).flatten = payload.take (n * maxFragmentPayload) := by
  induction n with
  | zero => simp
  | succ n ih =>
      rw [List.range_succ, List.map_append, List.flatten_append, ih, Nat.succ_mul, List.take_add]
      simp [chunk]

/-- Putting the chunks together gives the payload back. -/
theorem flatten_chunks (payload : Bytes) : (chunks payload).flatten = payload := by
  rw [chunks, flatten_chunks_take]
  apply List.take_of_length_le
  have hmax : maxFragmentPayload = 1155 := rfl
  rw [fragmentCount, hmax]
  split <;> omega

end Fastwire
