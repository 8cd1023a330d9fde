/-
# From a message to its payload

What `sendMessage` puts on the wire when it succeeds, and what the receive
pipeline makes of it when all of it arrives, in any order. The sender accepts a
message that is short enough after compression; the decoder accepts one that was
short enough before. So a message that the sender has accepted comes back exactly
if it is not longer than the limit of the decoder.
-/

import Fastwire.Connection.BatchOrder
import Fastwire.Fragment.Arrivals
import Fastwire.Handshake.Compression

namespace Fastwire

namespace Connection

/-! ## What is sent -/

/-- Whether a plaintext is a fragment, and its body. -/
def bodyOf (raw : Bytes) : Option (Bool × Bytes) :=
  match unmarshalHeader raw with
  | .error _ => none
  | .ok (hdr, n) => some (hdr.flags &&& flagFragment != 0, raw.drop n)

/-- What a connection has sealed since an earlier state, in order. -/
def sealedSince (c c' : Connection) : List Bytes :=
  (c'.sendCipher.sealed.take (c'.sendCipher.sealed.length - c.sendCipher.sealed.length)).reverse

theorem sealedSince_of_append {c c' : Connection} {packets : List Bytes}
    (h : c'.sendCipher.sealed = packets.reverse ++ c.sendCipher.sealed) :
    sealedSince c c' = packets := by
  rw [sealedSince, h, List.length_append, Nat.add_sub_cancel, List.take_left, List.reverse_reverse]

theorem sealed_encrypt (tx : Crypto.CipherState) (raw : Bytes) :
    (tx.encrypt raw).1.sealed = raw :: tx.sealed := by
  rw [Crypto.CipherState.encrypt]
  split <;> rfl

theorem sendCipher_queuePacket (c : Connection) (p : Stamped) (now : ℤ) :
    (c.queuePacket p now).sendCipher = c.sendCipher := by
  obtain ⟨_, _, heq⟩ := c.queuePacket_books p now
  rw [heq]

/-- One packet that was sent. -/
theorem sendPacket_sealed {c c' : Connection} {s s' : Socket} {ch : Channel} {id flags : UInt8}
    {body : Bytes} {now : ℤ} (hok : c.sendPacket s ch id flags body now = (c', s', .ok ())) :
    ∃ raw, c'.sendCipher.sealed = raw :: c.sendCipher.sealed ∧
      bodyOf raw = some (flags &&& flagFragment != 0, body) := by
  rw [sendPacket] at hok
  split at hok
  · cases hok
  · rename_i c₁ p hstamp
    obtain ⟨rfl, hbuild⟩ := Prod.mk.inj hstamp
    split at hok
    · cases hok
    · rename_i c₂ s₂ htransmit
      cases hok
      have hcipher : c₂.sendCipher = (c.sendCipher.encrypt p.raw).1 := by
        obtain ⟨_, _, heq⟩ := (c.setChannel id ch.nextSequence.1).transmitPacket_books s p.raw
        have hsame := (congrArg Prod.fst htransmit).symm.trans heq
        exact congrArg Connection.sendCipher hsame
      refine ⟨p.raw, ?_, ?_⟩
      · rw [sendCipher_queuePacket, hcipher, sealed_encrypt]
      · obtain ⟨n, hheader, hbody⟩ := unmarshalHeader_buildPacket hbuild
        simp only [bodyOf, hheader, hbody]
        rfl

theorem sendFragments_sealed {id : UInt8} {now : ℤ} {c c' : Connection} {s s' : Socket}
    {fragments : List Bytes} (hok : sendFragments id now c s fragments = (c', s', .ok ())) :
    ∃ packets : List Bytes, c'.sendCipher.sealed = packets.reverse ++ c.sendCipher.sealed ∧
      packets.map bodyOf = fragments.map fun frag => some (true, frag) := by
  induction fragments generalizing c s with
  | nil =>
      cases hok
      exact ⟨[], rfl, rfl⟩
  | cons frag fragments ih =>
      rw [sendFragments] at hok
      split at hok
      · cases hok
      · split at hok
        · cases hok
        · rename_i c₁ s₁ hpacket
          obtain ⟨raw, hsealed, hbody⟩ := sendPacket_sealed hpacket
          obtain ⟨packets, hrest, hbodies⟩ := ih hok
          refine ⟨raw :: packets, ?_, ?_⟩
          · rw [hrest, hsealed, List.reverse_cons, List.append_assoc]
            rfl
          · rw [List.map_cons, List.map_cons, hbody, hbodies]
            rfl

/-- What a message has become that was sent: one packet with the message itself, or
the fragments of its compressed form. -/
theorem sendMessage_sealed {c c' : Connection} {s s' : Socket} {data : Bytes} {id : UInt8} {now : ℤ}
    (hok : c.sendMessage s data id now = (c', s', .ok ())) :
    ∃ compressed flags, c.compress.compressPayload data = .ok (compressed, flags) ∧
      ((flags = 0 ∧ compressed.length ≤ maxFragmentPayload ∧
          (sealedSince c c').map bodyOf = [some (false, compressed)]) ∨
        ∃ fragmentID fragments, splitMessage compressed fragmentID flags = .ok fragments ∧
          (sealedSince c c').map bodyOf = fragments.map fun frag => some (true, frag)) := by
  rw [sendMessage] at hok
  split at hok
  · cases hok
  · split at hok
    · cases hok
    · rename_i compressed flags hcompress
      refine ⟨compressed, flags, hcompress, ?_⟩
      split at hok
      · rw [sendFragmented] at hok
        dsimp only at hok
        split at hok
        · cases hok
        · rename_i fragments hsplit
          obtain ⟨packets, hsealed, hbodies⟩ := sendFragments_sealed hok
          refine .inr ⟨_, fragments, hsplit, ?_⟩
          have hsince : sealedSince c c' = packets := sealedSince_of_append hsealed
          rw [hsince, hbodies]
      · rename_i hsmall
        rw [sendSinglePacket] at hok
        split at hok
        · cases hok
        · rename_i c₁ s₁ hpacket
          cases hok
          obtain ⟨raw, hsealed, hbody⟩ := sendPacket_sealed hpacket
          have hflags : flags = 0 := by
            by_contra hne
            exact hsmall (.inr hne)
          have hlen : compressed.length ≤ maxFragmentPayload := by omega
          refine .inl ⟨hflags, hlen, ?_⟩
          have hsince : sealedSince c { c₁ with lastSend := now } = [raw] :=
            sealedSince_of_append hsealed
          rw [hsince, List.map_singleton, hbody]
          rfl

/-! ## What is received -/

/-- A plaintext that arrives: the connection, and the payload for `deliver` or the
error that ends the packet, if there is one. -/
def collect (d : Connection) (now : ℤ) (raw : Bytes) : Connection × Option (Except Err Slice) :=
  match unmarshalHeader raw with
  | .error e => (d, some (.error e))
  | .ok (hdr, n) =>
      let (store, result) := d.reassemble now hdr (raw.drop n)
      ({ d with reassembly := store },
        match result with
        | .error e => some (.error e)
        | .ok (payload, true) => some (.ok payload)
        | .ok (_, false) => none)

/-- The plaintexts that arrive one after another, with their times. -/
def collectAll : Connection → List (ℤ × Bytes) → Connection × List (Except Err Slice)
  | d, [] => (d, [])
  | d, (now, raw) :: arrivals =>
      let (d, payload) := d.collect now raw
      let (d, payloads) := collectAll d arrivals
      (d, payload.toList ++ payloads)

def fragmentOf (arrival : ℤ × Bytes) : Option Arrival :=
  match bodyOf arrival.2 with
  | some (true, body) =>
      match unmarshalFragmentHeader body with
      | .error _ => none
      | .ok (fh, n) => some ⟨arrival.1, fh, body.drop n⟩
  | _ => none

/-- The packets of a message arrive, each of them once. The reassembly store does
not know the identifier of the message, and it takes what it is given: no buffer
of the message gets stale, no cap is hit. -/
structure Receives (d : Connection) (packets : List Bytes) (arrivals : List (ℤ × Bytes)) :
    Prop where
  all : (arrivals.map Prod.snd).Perm packets
  unused : ∀ a ∈ arrivals, ∀ f, fragmentOf a = some f →
    d.reassembly.buffers.lookup f.header.fragmentID = none
  admitted : ∀ before a behind f, arrivals = before ++ a :: behind → fragmentOf a = some f →
    (collectAll d before).1.reassembly.Admits f.now f.header.fragmentID f.payload

theorem collectAll_concat (d : Connection) (arrivals : List (ℤ × Bytes)) (a : ℤ × Bytes) :
    collectAll d (arrivals ++ [a]) =
      (((collectAll d arrivals).1.collect a.1 a.2).1,
        (collectAll d arrivals).2 ++ ((collectAll d arrivals).1.collect a.1 a.2).2.toList) := by
  induction arrivals generalizing d with
  | nil => simp [collectAll]
  | cons b arrivals ih =>
      rw [List.cons_append, collectAll, collectAll]
      dsimp only
      rw [ih]
      simp

/-- A packet that is not a fragment. -/
theorem collect_single {d : Connection} {raw body : Bytes} (h : bodyOf raw = some (false, body))
    (now : ℤ) : d.collect now raw = (d, some (.ok (some body))) := by
  rw [bodyOf] at h
  rw [collect]
  split at h
  · cases h
  · rename_i hdr n hheader
    simp only [Option.some.injEq, Prod.mk.injEq, bne_eq_false_iff_eq] at h
    simp only [reassemble, if_pos h.1, h.2]

/-- A fragment. -/
theorem collect_fragment {d : Connection} {a : ℤ × Bytes} {f : Arrival}
    (h : fragmentOf a = some f) :
    d.collect a.1 a.2 = ({ d with reassembly := (f.add d.reassembly).1 },
      match (f.add d.reassembly).2 with
      | .error e => some (.error e)
      | .ok none => none
      | .ok (some message) =>
          some (d.compress.decompressPayload message f.header.fragmentFlags)) := by
  obtain ⟨now, raw⟩ := a
  simp only [fragmentOf, bodyOf] at h
  rw [collect]
  cases hheader : unmarshalHeader raw with
  | error e => simp [hheader] at h
  | ok parsed =>
      obtain ⟨hdr, n⟩ := parsed
      simp only [hheader] at h
      by_cases hflag : hdr.flags &&& flagFragment = 0
      · simp [hflag] at h
      · have hfragment : (hdr.flags &&& flagFragment != 0) = true := by simpa using hflag
        simp only [hfragment] at h
        cases hparse : unmarshalFragmentHeader (raw.drop n) with
        | error e => simp [hparse] at h
        | ok parsed =>
            obtain ⟨fh, fn⟩ := parsed
            simp only [hparse, Option.some.injEq] at h
            subst h
            simp only [reassemble, if_neg hflag, hparse, Arrival.add]
            obtain ⟨store, added⟩ := d.reassembly.addFragment now fh ((raw.drop n).drop fn)
            cases added with
            | error e => rfl
            | ok assembled =>
                cases assembled with
                | none => rfl
                | some message =>
                    dsimp only
                    cases d.compress.decompressPayload message fh.fragmentFlags <;> rfl

/-! ## All fragments of a message -/

section

variable {d : Connection} {compressed : Bytes} {fragmentID : UInt16} {flags : UInt8}
  {fragments packets : List Bytes} {arrivals : List (ℤ × Bytes)}

/-- A plaintext whose body is a fragment of the message. -/
theorem fragmentOf_spec (hsplit : splitMessage compressed fragmentID flags = .ok fragments)
    {a : ℤ × Bytes} {frag : Bytes} (hfrag : frag ∈ fragments)
    (hbody : bodyOf a.2 = some (true, frag)) :
    ∃ f, fragmentOf a = some f ∧ f.Carries frag ∧ f.header.fragmentID = fragmentID ∧
      f.header.fragmentFlags = flags := by
  obtain ⟨i, hi⟩ := List.mem_iff_getElem?.mp hfrag
  obtain ⟨-, -, hget⟩ := splitMessage_ok hsplit
  obtain ⟨hparse, -⟩ := hget i frag hi
  refine ⟨⟨a.1, fragmentHeader compressed fragmentID flags i, frag.drop fragmentHeaderSize⟩, ?_,
    ⟨hparse, rfl⟩, rfl, rfl⟩
  simp only [fragmentOf, hbody, hparse]

/-- The fragments of a message are distinct. -/
theorem splitMessage_nodup (hsplit : splitMessage compressed fragmentID flags = .ok fragments) :
    fragments.Nodup := by
  rw [List.nodup_iff_getElem?_ne_getElem?]
  intro i j hij hj heq
  obtain ⟨-, -, hget⟩ := splitMessage_ok hsplit
  have hi : fragments[i]? = some fragments[j] := by
    rw [heq]
    exact List.getElem?_eq_getElem hj
  have hcarries : (⟨0, fragmentHeader compressed fragmentID flags j,
      fragments[j].drop fragmentHeaderSize⟩ : Arrival).Carries fragments[j] :=
    ⟨(hget j _ (List.getElem?_eq_getElem hj)).1, rfl⟩
  have hindex := ReassemblyStore.index_unique hsplit hi (List.getElem?_eq_getElem hj) hcarries
    hcarries
  omega

/-- What arrives is the fragments of the message. -/
theorem Receives.fragment (h : Receives d packets arrivals)
    (hsplit : splitMessage compressed fragmentID flags = .ok fragments)
    (hbodies : packets.map bodyOf = fragments.map fun frag => some (true, frag))
    {a : ℤ × Bytes} (ha : a ∈ arrivals) :
    ∃ frag ∈ fragments, bodyOf a.2 = some (true, frag) ∧
      ∃ f, fragmentOf a = some f ∧ f.Carries frag ∧ f.header.fragmentID = fragmentID ∧
        f.header.fragmentFlags = flags := by
  have hmem : bodyOf a.2 ∈ packets.map bodyOf :=
    List.mem_map_of_mem (h.all.mem_iff.mp (List.mem_map_of_mem ha))
  rw [hbodies] at hmem
  obtain ⟨frag, hfrag, hbody⟩ := List.mem_map.mp hmem
  exact ⟨frag, hfrag, hbody.symm, fragmentOf_spec hsplit hfrag hbody.symm⟩

/-- Each fragment arrives once. -/
theorem Receives.nodup (h : Receives d packets arrivals)
    (hsplit : splitMessage compressed fragmentID flags = .ok fragments)
    (hbodies : packets.map bodyOf = fragments.map fun frag => some (true, frag)) :
    (arrivals.map fun a => bodyOf a.2).Nodup := by
  have hperm : (arrivals.map fun a => bodyOf a.2).Perm (packets.map bodyOf) := by
    have hmapped := h.all.map bodyOf
    rwa [List.map_map] at hmapped
  rw [hperm.nodup_iff, hbodies]
  refine (splitMessage_nodup hsplit).map ?_
  intro x y hxy
  simpa using hxy

/-- The store sees nothing but the fragments. -/
theorem collectAll_store (d : Connection) {arrivals : List (ℤ × Bytes)}
    (hall : ∀ a ∈ arrivals, (fragmentOf a).isSome) :
    (collectAll d arrivals).1 =
      { d with reassembly := d.reassembly.after (arrivals.filterMap fragmentOf) } := by
  induction arrivals using List.reverseRecOn with
  | nil => rfl
  | append_singleton arrivals a ih =>
      obtain ⟨f, hf⟩ := Option.isSome_iff_exists.mp
        (hall a (List.mem_append_right _ (List.mem_singleton_self a)))
      have hprior := ih fun b hb => hall b (List.mem_append_left _ hb)
      rw [collectAll_concat, collect_fragment hf, hprior, List.filterMap_append,
        List.filterMap_cons, hf, List.filterMap_nil, ReassemblyStore.after_concat]

theorem Receives.isSome (h : Receives d packets arrivals)
    (hsplit : splitMessage compressed fragmentID flags = .ok fragments)
    (hbodies : packets.map bodyOf = fragments.map fun frag => some (true, frag)) :
    ∀ a ∈ arrivals, (fragmentOf a).isSome := by
  intro a ha
  obtain ⟨-, -, -, f, hf, -⟩ := h.fragment hsplit hbodies ha
  rw [hf]
  rfl

theorem Receives.undisturbed (h : Receives d packets arrivals)
    (hsplit : splitMessage compressed fragmentID flags = .ok fragments)
    (hbodies : packets.map bodyOf = fragments.map fun frag => some (true, frag)) :
    ReassemblyStore.Undisturbed d.reassembly fragmentID fragments
      (arrivals.filterMap fragmentOf) := by
  have hsome := h.isSome hsplit hbodies
  -- a fragment among the arrivals of the store is an arrival of the connection
  have hlift : ∀ before f behind, arrivals.filterMap fragmentOf = before ++ f :: behind →
      ∃ before' a behind', arrivals = before' ++ a :: behind' ∧ fragmentOf a = some f ∧
        before'.filterMap fragmentOf = before := by
    intro before f behind heq
    obtain ⟨before', rest, harrivals, hbefore, hrest⟩ := List.filterMap_eq_append_iff.mp heq
    obtain ⟨skipped, a, behind', hrest', hnone, ha, -⟩ := List.filterMap_eq_cons_iff.mp hrest
    refine ⟨before' ++ skipped, a, behind', by simp [harrivals, hrest'], ha, ?_⟩
    have hskipped : skipped.filterMap fragmentOf = [] := by
      rw [List.filterMap_eq_nil_iff]
      exact hnone
    rw [List.filterMap_append, hbefore, hskipped, List.append_nil]
  constructor
  · intro f hf _
    obtain ⟨a, ha, haf⟩ := List.mem_filterMap.mp hf
    obtain ⟨frag, hfrag, -, f', hf', hcarries, -⟩ := h.fragment hsplit hbodies ha
    cases haf.symm.trans hf'
    exact ⟨frag, hfrag, hcarries⟩
  · intro before f behind heq hid
    obtain ⟨before', a, behind', harrivals, haf, rfl⟩ := hlift before f behind heq
    have hadmits := h.admitted before' a behind' f harrivals haf
    rw [collectAll_store d fun b hb => hsome b (harrivals ▸ List.mem_append_left _ hb), hid]
      at hadmits
    exact hadmits
  · intro before f behind heq _
    obtain ⟨before', a, behind', harrivals, haf, rfl⟩ := hlift before f behind heq
    have ha : a ∈ arrivals := harrivals ▸ List.mem_append_right _ List.mem_cons_self
    obtain ⟨frag, hfrag, hbody, -⟩ := h.fragment hsplit hbodies ha
    refine ⟨frag, hfrag, ?_⟩
    intro g hg hcarries
    -- a second arrival of the same fragment
    obtain ⟨b, hb, hbg⟩ := List.mem_filterMap.mp hg
    have hb' : b ∈ arrivals := harrivals ▸ List.mem_append_left _ hb
    obtain ⟨frag', hfrag', hbody', g', hg', hcarries', -⟩ := h.fragment hsplit hbodies hb'
    cases hbg.symm.trans hg'
    obtain ⟨i, hi⟩ := List.mem_iff_getElem?.mp hfrag
    obtain ⟨j, hj⟩ := List.mem_iff_getElem?.mp hfrag'
    cases ReassemblyStore.index_unique hsplit hi hj hcarries hcarries'
    cases hi.symm.trans hj
    have hnodup := h.nodup hsplit hbodies
    rw [harrivals, List.map_append, List.map_cons, List.nodup_append] at hnodup
    exact hnodup.2.2 _ (List.mem_map_of_mem hb) _ List.mem_cons_self (hbody'.trans hbody.symm)

/-- The next arrival of the message still finds a fragment missing. -/
theorem Receives.missing (h : Receives d packets arrivals)
    (hsplit : splitMessage compressed fragmentID flags = .ok fragments)
    (hbodies : packets.map bodyOf = fragments.map fun frag => some (true, frag))
    {before behind : List (ℤ × Bytes)} {a : ℤ × Bytes}
    (harrivals : arrivals = before ++ a :: behind) :
    ∃ frag ∈ fragments, ∀ b ∈ before.filterMap fragmentOf, ¬b.Carries frag := by
  have ha : a ∈ arrivals := harrivals ▸ List.mem_append_right _ List.mem_cons_self
  obtain ⟨-, -, -, f, hf, -, hid, -⟩ := h.fragment hsplit hbodies ha
  apply (h.undisturbed hsplit hbodies).incomplete _ f (behind.filterMap fragmentOf) _ hid
  rw [harrivals, List.filterMap_append, List.filterMap_cons, hf]

/-- One arrival of the message: it completes the message, or it is kept. -/
theorem Receives.collect_next (h : Receives d packets arrivals)
    (hsplit : splitMessage compressed fragmentID flags = .ok fragments)
    (hbodies : packets.map bodyOf = fragments.map fun frag => some (true, frag))
    {before behind : List (ℤ × Bytes)} {a : ℤ × Bytes}
    (harrivals : arrivals = before ++ a :: behind) :
    ((∃ frag ∈ fragments, ∀ b ∈ (before ++ [a]).filterMap fragmentOf, ¬b.Carries frag) ∧
        ((collectAll d before).1.collect a.1 a.2).2 = none) ∨
      ((¬∃ frag ∈ fragments, ∀ b ∈ (before ++ [a]).filterMap fragmentOf, ¬b.Carries frag) ∧
        ((collectAll d before).1.collect a.1 a.2).2 =
          some (d.compress.decompressPayload compressed flags)) := by
  have ha : a ∈ arrivals := harrivals ▸ List.mem_append_right _ List.mem_cons_self
  obtain ⟨-, -, -, f, hf, -, hid, hflags⟩ := h.fragment hsplit hbodies ha
  have hfree : d.reassembly.buffers.lookup fragmentID = none := hid ▸ h.unused a ha f hf
  have hstore := collectAll_store d fun b hb =>
    h.isSome hsplit hbodies b (harrivals ▸ List.mem_append_left _ hb)
  have hundisturbed := h.undisturbed hsplit hbodies
  have hsplitAt : arrivals.filterMap fragmentOf =
      before.filterMap fragmentOf ++ f :: behind.filterMap fragmentOf := by
    rw [harrivals, List.filterMap_append, List.filterMap_cons, hf]
  have hconcat : (before ++ [a]).filterMap fragmentOf = before.filterMap fragmentOf ++ [f] := by
    rw [List.filterMap_append, List.filterMap_cons, hf, List.filterMap_nil]
  have hcollects := hundisturbed.collects hsplit hfree hsplitAt
    (h.missing hsplit hbodies harrivals)
  rw [collect_fragment hf, hstore, hconcat]
  rcases hundisturbed.add hsplit hsplitAt hid hcollects with ⟨hmore, hresult, -⟩ | ⟨hall, hresult⟩
  · exact .inl ⟨hmore, by simp only [hresult]⟩
  · exact .inr ⟨hall, by simp only [hresult, hflags]⟩

/-- As long as something is missing nothing comes out. -/
theorem Receives.collectAll_before (h : Receives d packets arrivals)
    (hsplit : splitMessage compressed fragmentID flags = .ok fragments)
    (hbodies : packets.map bodyOf = fragments.map fun frag => some (true, frag))
    {before behind : List (ℤ × Bytes)} {a : ℤ × Bytes}
    (harrivals : arrivals = before ++ a :: behind) :
    (collectAll d before).2 = [] := by
  induction before using List.reverseRecOn generalizing a behind with
  | nil => rfl
  | append_singleton before b ih =>
      have hmissing := h.missing hsplit hbodies harrivals
      rw [List.append_assoc, List.singleton_append] at harrivals
      rw [collectAll_concat, ih harrivals, List.nil_append]
      rcases h.collect_next hsplit hbodies harrivals with ⟨-, hnone⟩ | ⟨hall, -⟩
      · rw [hnone]
        rfl
      · exact absurd hmissing hall

/-- When all fragments have arrived the message has come out, and nothing else. -/
theorem Receives.collectAll_eq (h : Receives d packets arrivals)
    (hsplit : splitMessage compressed fragmentID flags = .ok fragments)
    (hbodies : packets.map bodyOf = fragments.map fun frag => some (true, frag)) :
    (collectAll d arrivals).2 = [d.compress.decompressPayload compressed flags] := by
  -- every fragment is among the arrivals
  have hall : ∀ frag ∈ fragments, ∃ b ∈ arrivals.filterMap fragmentOf, b.Carries frag := by
    intro frag hfrag
    have hmem : some (true, frag) ∈ packets.map bodyOf := by
      rw [hbodies]
      exact List.mem_map_of_mem (f := fun frag => some (true, frag)) hfrag
    obtain ⟨raw, hraw, hbody⟩ := List.mem_map.mp hmem
    obtain ⟨a, ha, rfl⟩ := List.mem_map.mp (h.all.mem_iff.mpr hraw)
    obtain ⟨f, hf, hcarries, -⟩ := fragmentOf_spec hsplit hfrag hbody
    exact ⟨f, List.mem_filterMap.mpr ⟨a, ha, hf⟩, hcarries⟩
  obtain ⟨hlength, -, -⟩ := splitMessage_ok hsplit
  have hpos : 0 < fragments.length := hlength ▸ fragmentCount_pos compressed
  have hne : arrivals ≠ [] := by
    rintro rfl
    obtain ⟨b, hb, -⟩ := hall fragments[0] (List.getElem_mem hpos)
    cases hb
  have hlast := (List.dropLast_append_getLast hne).symm
  rw [hlast, collectAll_concat, h.collectAll_before hsplit hbodies hlast, List.nil_append]
  rcases h.collect_next hsplit hbodies hlast with ⟨⟨frag, hfrag, hnone⟩, -⟩ | ⟨-, hresult⟩
  · rw [← hlast] at hnone
    obtain ⟨b, hb, hcarries⟩ := hall frag hfrag
    exact absurd hcarries (hnone b hb)
  · rw [hresult]
    rfl

end

/-- A message that was sent as one packet. -/
theorem Receives.collectAll_single {d : Connection} {packets : List Bytes}
    {arrivals : List (ℤ × Bytes)} {body : Bytes} (h : Receives d packets arrivals)
    (hbodies : packets.map bodyOf = [some (false, body)]) :
    (collectAll d arrivals).2 = [.ok (some body)] := by
  obtain ⟨raw, rfl, hbody⟩ := List.map_eq_singleton_iff.mp hbodies
  obtain ⟨a, rfl, rfl⟩ := List.map_eq_singleton_iff.mp (List.perm_singleton.mp h.all)
  simp only [collectAll, collect_single hbody, Option.toList_some, List.append_nil]

/-! ## Accepted and decoded -/

/-- What is sent as it is fits the fragments, and so the decoder. -/
theorem length_le_of_plain {p : CompressorPool} {data compressed : Bytes}
    (hcompress : p.compressPayload data = .ok (compressed, 0))
    (hlen : compressed.length ≤ maxFragments * maxFragmentPayload) :
    data.length ≤ CompressorPool.maxDecompressedSize := by
  have hlimit : maxFragments * maxFragmentPayload ≤ CompressorPool.maxDecompressedSize := by decide
  rcases CompressorPool.compressPayload_cases hcompress with ⟨rfl, -⟩ | ⟨-, -, -, hflags⟩
  · exact hlen.trans hlimit
  · exact absurd hflags.symm p.compressedFlags_ne_zero

/-- Whichever way a message was sent, one payload comes out when all of it has
arrived. -/
theorem collectAll_sent {c c' d : Connection} {s s' : Socket} {data : Bytes} {id : UInt8}
    {now : ℤ} {arrivals : List (ℤ × Bytes)} (hsame : d.compress = c.compress)
    (hsent : c.sendMessage s data id now = (c', s', .ok ()))
    (h : Receives d (sealedSince c c') arrivals) :
    ∃ compressed flags, c.compress.compressPayload data = .ok (compressed, flags) ∧
      compressed.length ≤ maxFragments * maxFragmentPayload ∧
      (collectAll d arrivals).2 = [c.compress.decompressPayload compressed flags] := by
  obtain ⟨compressed, flags, hcompress, hform⟩ := sendMessage_sealed hsent
  refine ⟨compressed, flags, hcompress, ?_⟩
  rcases hform with ⟨rfl, hlen, hbodies⟩ | ⟨fragmentID, fragments, hsplit, hbodies⟩
  · rw [CompressorPool.decompressPayload_plain]
    exact ⟨hlen.trans (by decide), h.collectAll_single hbodies⟩
  · obtain ⟨-, hmax, -⟩ := splitMessage_ok hsplit
    rw [← hsame]
    exact ⟨(fragmentCount_le_iff compressed).mp hmax, h.collectAll_eq hsplit hbodies⟩

/-- All packets of a message that was sent without an error arrive at a connection
with the same compression. The receiver gets the message, exactly if it is not
longer than the decoder allows. -/
theorem message_decoded_iff {c c' d : Connection} {s s' : Socket} {data : Bytes} {id : UInt8}
    {now : ℤ} {arrivals : List (ℤ × Bytes)} (hlaw : c.compress.codecs.Inverse)
    (hsame : d.compress = c.compress) (hsent : c.sendMessage s data id now = (c', s', .ok ()))
    (h : Receives d (sealedSince c c') arrivals) :
    (collectAll d arrivals).2 = [.ok (some data)] ↔
      data.length ≤ CompressorPool.maxDecompressedSize := by
  obtain ⟨compressed, flags, hcompress, hlen, hout⟩ := collectAll_sent hsame hsent h
  have hdecode : c.compress.decompressPayload compressed flags = .ok (some data) ↔
      flags = 0 ∨ data.length ≤ CompressorPool.maxDecompressedSize :=
    CompressorPool.decompressPayload_self hlaw hcompress
  rw [hout, List.singleton_inj, hdecode]
  constructor
  · rintro (rfl | hle)
    · exact length_le_of_plain hcompress hlen
    · exact hle
  · exact .inr

/-! ## Two messages -/

theorem exists_of_result {sent : Connection × Socket × Except Err Unit} {r : Except Err Unit}
    (h : sent.2.2 = r) : ∃ c' s', sent = (c', s', r) := ⟨sent.1, sent.2.1, by rw [← h]⟩

theorem collect_limits (d : Connection) (now : ℤ) (raw : Bytes) :
    (d.collect now raw).1.reassembly.limits = d.reassembly.limits := by
  rw [collect]
  split
  · rfl
  · rename_i hdr n _
    show (d.reassemble now hdr (raw.drop n)).1.limits = _
    rw [reassemble]
    split
    · rfl
    · split
      · rfl
      · rename_i fh fn _
        have hcall := d.reassembly.addFragment_limits now fh ((raw.drop n).drop fn)
        split <;> rename_i hok <;> rw [hok] at hcall
        · exact hcall
        · exact hcall
        · split <;> exact hcall

theorem collectAll_limits (d : Connection) (arrivals : List (ℤ × Bytes)) :
    (collectAll d arrivals).1.reassembly.limits = d.reassembly.limits := by
  induction arrivals generalizing d with
  | nil => rfl
  | cons a arrivals ih => exact (ih (d.collect a.1 a.2).1).trans (d.collect_limits a.1 a.2)

/-- A connection that is new and has no reassembly limits receives everything. -/
theorem receives_of_limits {d : Connection} {packets : List Bytes} {arrivals : List (ℤ × Bytes)}
    (hnew : d.reassembly.buffers = ∅) (hlimits : d.reassembly.limits ≤ (0, 0, 0))
    (hall : (arrivals.map Prod.snd).Perm packets) : Receives d packets arrivals := by
  refine ⟨hall, ?_, ?_⟩
  · intro a _ f _
    rw [hnew]
    exact AList.lookup_empty _
  · intro before a behind f _ _
    exact ReassemblyStore.admits_of_limits ((collectAll_limits d before).trans_le hlimits) _ _ _

/-- A connection with one channel that compresses with LZ4, and its peer, with
batching. A negative limit is no limit. -/
def compressing (codecs : Codecs) : Connection :=
  newConnection
    { addr := ⟨0, 0⟩
      sendCipher := .init none
      recvCipher := .init none
      layout := [(.reliableOrdered, 0)]
      compress := .ofConfig ⟨.lz4, 0, none⟩ codecs
      cc := .aggressive 0
      features := featureSendBatching
      token := []
      settings := ⟨0, -1, -1, -1⟩ } 0

/-- What the connection has sealed for a message. -/
def packetsOf (codecs : Codecs) (data : Bytes) : List Bytes :=
  sealedSince (compressing codecs) ((compressing codecs).sendMessage ⟨[], []⟩ data 0 0).1

theorem receives_packetsOf (codecs : Codecs) {data : Bytes} {arrivals : List (ℤ × Bytes)}
    (hall : (arrivals.map Prod.snd).Perm (packetsOf codecs data)) :
    Receives (compressing codecs) (packetsOf codecs data) arrivals :=
  receives_of_limits rfl (by decide : ((-1, -1, -1) : ℤ × ℤ × ℤ) ≤ (0, 0, 0)) hall

/-- A message of 2400 bytes is compressed to 1205, and the two fragments of these arrive
in reverse order. -/
theorem message_decoded_iff_reversed :
    let data : Bytes := List.replicate 2400 7
    let arrivals := (packetsOf runCodecs data).reverse.map (Prod.mk (0 : ℤ))
    (compressing runCodecs).compress.compressPayload data =
        .ok ([0x60, 0x09, 0, 0, 0] ++ List.replicate 1200 7, fragFlagCompressed) ∧
      (packetsOf runCodecs data).length = 2 ∧
      (collectAll (compressing runCodecs) arrivals).2 = [.ok (some data)] := by
  intro data arrivals
  refine ⟨by decide +kernel, by decide +kernel, ?_⟩
  have hok : ((compressing runCodecs).sendMessage ⟨[], []⟩ data 0 0).2.2 = .ok () := by
    decide +kernel
  have hall : (arrivals.map Prod.snd).Perm (packetsOf runCodecs data) := by
    rw [List.map_map]
    exact (List.map_id _).symm ▸ List.reverse_perm _
  obtain ⟨c', s', hsent⟩ := exists_of_result hok
  have harrive := receives_packetsOf runCodecs hall
  rw [packetsOf, hsent] at harrive
  apply (message_decoded_iff runCodecs_lawful.toInverse rfl hsent harrive).mpr
  rw [List.length_replicate]
  decide

def zerosCodecs (n : ℕ) : Codecs :=
  { runCodecs with
    lz4CompressBlock src := some (if src = List.replicate n 0 then [0] else 1 :: src)
    lz4UncompressBlock
      | [0], size => if n ≤ size then some (List.replicate n 0) else none
      | 1 :: src, size => if src.length ≤ size then some src else none
      | _, _ => none }

theorem zerosCodecs_inverse (n : ℕ) : (zerosCodecs n).Inverse where
  lz4 src block size hblock _ := by
    cases hblock
    by_cases hsrc : src = List.replicate n 0
    · simp [zerosCodecs, hsrc]
    · simp [zerosCodecs, hsrc]
  zstd := runCodecs_lawful.zstd

theorem compressPayload_zeros {n : ℕ} (hmin : 128 ≤ n) (hmax : n < 2 ^ 32) :
    (compressing (zerosCodecs n)).compress.compressPayload (List.replicate n 0) =
      .ok (putUint32 (BitVec.ofNat 32 n) ++ [0], fragFlagCompressed) := by
  have hcompress : (compressing (zerosCodecs n)).compress.compress (List.replicate n 0) =
      .ok (putUint32 (BitVec.ofNat 32 n) ++ [0]) := by
    show CompressorPool.lz4Compress _ _ = _
    have hne : List.replicate n (0 : UInt8) ≠ [] := by
      rw [Ne, List.replicate_eq_nil_iff]
      omega
    have hblock : (compressing (zerosCodecs n)).compress.codecs.lz4CompressBlock
        (List.replicate n 0) = some [0] :=
      congrArg some (if_pos rfl)
    rw [CompressorPool.lz4Compress, if_neg hne, hblock, List.length_replicate]
  have hhurdle : ¬((compressing (zerosCodecs n)).compress.algorithm = .none ∨
      (List.replicate n (0 : UInt8)).length % 2 ^ 32 <
        (compressing (zerosCodecs n)).compress.hurdle) := by
    show ¬(CompressionAlgorithm.lz4 = .none ∨ _ < 128)
    rw [List.length_replicate, Nat.mod_eq_of_lt hmax]
    rintro (h | h)
    · cases h
    · omega
  rw [CompressorPool.compressPayload, if_neg hhurdle, hcompress]
  have hshort : ¬(putUint32 (BitVec.ofNat 32 n) ++ [0]).length ≥
      (List.replicate n (0 : UInt8)).length := by
    rw [List.length_append, putUint32_length, List.length_replicate]
    show ¬4 + 1 ≥ n
    omega
  dsimp only
  rw [if_neg hshort]
  rfl

theorem decompressPayload_zeros (p : CompressorPool) {n : ℕ}
    (hmin : CompressorPool.maxDecompressedSize < n) (hmax : n < 2 ^ 32) :
    p.decompressPayload (putUint32 (BitVec.ofNat 32 n) ++ [0]) fragFlagCompressed =
      .error .decompressionFailed := by
  have hsize : (readUint32 (putUint32 (BitVec.ofNat 32 n) ++ [0])).toNat = n := by
    rw [readUint32_putUint32, BitVec.toNat_ofNat, Nat.mod_eq_of_lt hmax]
  rw [CompressorPool.decompressPayload, if_neg (by decide), if_neg (by decide),
    CompressorPool.lz4Decompress, if_neg (by simp), hsize]
  exact if_pos hmin

/-- A run of zeros beyond the limit is sent without an error, as one fragment, and
the decoder refuses it. -/
theorem zeros_undecodable {n : ℕ} (hmin : CompressorPool.maxDecompressedSize < n)
    (hmax : n < 2 ^ 32) :
    let codecs := zerosCodecs n
    let arrivals := (packetsOf codecs (List.replicate n 0)).map (Prod.mk (0 : ℤ))
    ((compressing codecs).sendMessage ⟨[], []⟩ (List.replicate n 0) 0 0).2.2 = .ok () ∧
      Receives (compressing codecs) (packetsOf codecs (List.replicate n 0)) arrivals ∧
      (collectAll (compressing codecs) arrivals).2 = [.error .decompressionFailed] := by
  intro codecs arrivals
  have hcompress : (compressing codecs).compress.compressPayload (List.replicate n 0) =
      .ok (putUint32 (BitVec.ofNat 32 n) ++ [0], fragFlagCompressed) :=
    compressPayload_zeros (le_trans (by decide) hmin.le) hmax
  have hch : (compressing codecs).channel 0 = some (Channel.init .reliableOrdered 0 1024) := rfl
  have hok : ((compressing codecs).sendMessage ⟨[], []⟩ (List.replicate n 0) 0 0).2.2 = .ok () := by
    have hcount : fragmentCount (putUint32 (BitVec.ofNat 32 n) ++ [0]) ≤ maxFragments := by
      rw [fragmentCount_le_iff, List.length_append, putUint32_length]
      decide
    obtain ⟨fragments, hsplit⟩ := splitMessage_of_le hcount
      (compressing codecs).nextFragmentID.2 fragFlagCompressed
    have hbatch : (compressing codecs).nextFragmentID.1.batchEnabled = true :=
      decide_eq_true (by decide : featureSendBatching &&& featureSendBatching ≠ 0)
    have hopen : ((compressing codecs).nextFragmentID.1.channel 0).isSome := rfl
    have hreliable : Reliable ⟨[], []⟩ := by simp [Reliable]
    obtain ⟨c', s', -, hfragments, -⟩ :=
      sendFragments_sends hbatch hreliable hopen 0 (splitMessage_length_le hsplit)
    simp only [sendMessage, hch, hcompress]
    rw [if_pos (.inr (by decide))]
    simp only [sendFragmented, hsplit, hfragments]
  have hall : (arrivals.map Prod.snd).Perm (packetsOf codecs (List.replicate n 0)) := by
    rw [List.map_map]
    exact .of_eq (List.map_id _)
  have harrive := receives_packetsOf codecs hall
  refine ⟨hok, harrive, ?_⟩
  obtain ⟨c', s', hsent⟩ := exists_of_result hok
  rw [packetsOf, hsent] at harrive
  obtain ⟨compressed, flags, hform, -, hout⟩ := collectAll_sent rfl hsent harrive
  rw [hcompress, Except.ok.injEq, Prod.mk.injEq] at hform
  rw [hout, ← hform.1, ← hform.2, decompressPayload_zeros _ hmin hmax]

/-- One byte more than 4 MiB. -/
theorem accepted_message_undecodable :
    let data : Bytes := List.replicate (CompressorPool.maxDecompressedSize + 1) 0
    let codecs := zerosCodecs (CompressorPool.maxDecompressedSize + 1)
    let arrivals := (packetsOf codecs data).map (Prod.mk (0 : ℤ))
    codecs.Inverse ∧ ((compressing codecs).sendMessage ⟨[], []⟩ data 0 0).2.2 = .ok () ∧
      Receives (compressing codecs) (packetsOf codecs data) arrivals ∧
      (collectAll (compressing codecs) arrivals).2 = [.error .decompressionFailed] :=
  ⟨zerosCodecs_inverse _, zeros_undecodable (Nat.lt_succ_self _) (by decide)⟩

end Connection

end Fastwire
