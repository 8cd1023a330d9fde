/-
# Calls of Decrypt at the same time

`Decrypt` holds the lock of the replay window twice, once for the check and once
for the update, and opens the packet in between without it. Any number of calls
go on at the same time here, each in these three steps.

A nonce is accepted once in every run in which no genuine packet is checked while
another one with its nonce is between its check and its update.
-/

import Fastwire.Handshake.Agreement
import Fastwire.Lib.Run

namespace Fastwire

open Crypto Lib

/-- Where a call of `Decrypt` is. -/
inductive DecryptCall
  /-- The nonce has passed the check. -/
  | checked (packet : Bytes)
  /-- The packet has been opened. -/
  | opened (packet plaintext : Bytes)
  | returned (packet : Bytes) (result : Except Err Bytes)
  deriving DecidableEq

namespace DecryptCall

def nonce : DecryptCall → ℕ
  | checked packet | opened packet _ | returned packet _ => CipherState.wireNonce packet

/-- The call is between its check and its update. -/
def pending : DecryptCall → Bool
  | checked _ | opened _ _ => true
  | returned _ _ => false

def succeeded : DecryptCall → Bool
  | returned _ (.ok _) => true
  | _ => false

end DecryptCall

/-- A cipher state and all calls on it. -/
structure Decrypting where
  state : CipherState
  calls : List DecryptCall

namespace Decrypting

/-- What happens next: a call begins, with its check, or a call goes on. -/
inductive Action
  | check (packet : Bytes)
  | openPacket (call : ℕ)
  | update (call : ℕ)

section

variable (m : Decrypting)

/-- A call up to the end of its first locked section. Without encryption it
returns at once. -/
def check (packet : Bytes) : DecryptCall :=
  match m.state.aead with
  | none => .returned packet (.ok packet)
  | some _ =>
      if packet.length < nonceSize + tagSize then .returned packet (.error .decryptionFailed)
      else if !m.state.replay.check (CipherState.wireNonce packet) then
        .returned packet (.error .replayedPacket)
      else .checked packet

def next : Action → Option Decrypting
  | .check packet => some { m with calls := m.calls ++ [m.check packet] }
  | .openPacket i =>
      match m.calls[i]?, m.state.aead with
      | some (.checked packet), some a =>
          let call :=
            match a.openBytes (CipherState.wireNonce packet) (packet.drop nonceSize) with
            | none => .returned packet (.error .decryptionFailed)
            | some plaintext => .opened packet plaintext
          some { m with calls := m.calls.set i call }
      | _, _ => none
  | .update i =>
      match m.calls[i]? with
      | some (.opened packet plaintext) =>
          some
            { state :=
                { m.state with replay := m.state.replay.update (CipherState.wireNonce packet) }
              calls := m.calls.set i (.returned packet (.ok plaintext)) }
      | _ => none

/-- The packet is one that the AEAD opens. -/
def genuine (packet : Bytes) : Bool :=
  m.state.aead.any fun a =>
    (a.openBytes (CipherState.wireNonce packet) (packet.drop nonceSize)).isSome

/-- The call is between its check and its update, with a packet that opens. -/
def opening : DecryptCall → Bool
  | .checked packet => m.genuine packet
  | .opened _ _ => true
  | .returned _ _ => false

/-- A genuine packet is not checked while another one with its nonce is between
its check and its update. -/
def exclusive : Action → Bool
  | .check packet =>
      !m.genuine packet ||
        m.calls.all fun c => !(m.opening c && c.nonce == CipherState.wireNonce packet)
  | _ => true

end

/-- A fresh cipher state with encryption. -/
def system : System Decrypting Action where
  init m := ∃ a, m = ⟨.init (some a), []⟩
  step m a m' := m.next a = some m'

variable {m m' : Decrypting}

theorem next_openPacket_inv {i : ℕ} (h : m.next (.openPacket i) = some m') :
    ∃ packet call, m.calls[i]? = some (.checked packet) ∧
      (call = .returned packet (.error .decryptionFailed) ∨
        m.genuine packet ∧ ∃ plaintext, call = .opened packet plaintext) ∧
      m' = { m with calls := m.calls.set i call } := by
  rw [next] at h
  split at h
  · rename_i packet a hcall haead
    rw [Option.some.injEq] at h
    refine ⟨packet, _, hcall, ?_, h.symm⟩
    split
    · exact .inl rfl
    · rename_i plaintext hopen
      exact .inr ⟨by simp [genuine, haead, hopen], plaintext, rfl⟩
  · cases h

theorem next_update_inv {i : ℕ} (h : m.next (.update i) = some m') :
    ∃ packet plaintext, m.calls[i]? = some (.opened packet plaintext) ∧
      m' = { state := { m.state with
                replay := m.state.replay.update (CipherState.wireNonce packet) }
             calls := m.calls.set i (.returned packet (.ok plaintext)) } := by
  rw [next] at h
  split at h
  · rename_i packet plaintext hcall
    exact ⟨packet, plaintext, hcall, (Option.some.inj h).symm⟩
  · cases h

/-! ## The sections and the whole call -/

/-- A call that is not interrupted does what `decrypt` says. -/
theorem decrypt_sections {a : Aead} (haead : m.state.aead = some a) (packet : Bytes) :
    ∃ actions, System.exec next m actions = some
      { state := (m.state.decrypt packet).toOption.elim m.state Prod.snd
        calls := m.calls ++ [.returned packet ((m.state.decrypt packet).map Prod.fst)] } := by
  have hlast : ∀ c : DecryptCall, (m.calls ++ [c])[m.calls.length]? = some c := by simp
  have hset : ∀ c d : DecryptCall,
      (m.calls ++ [c]).set m.calls.length d = m.calls ++ [d] := by simp
  by_cases hshort : packet.length < nonceSize + tagSize
  · refine ⟨[.check packet], ?_⟩
    simp [System.exec, next, check, CipherState.decrypt, haead, hshort, Except.map,
      Except.toOption]
  cases hcheck : m.state.replay.check (CipherState.wireNonce packet) with
  | false =>
      refine ⟨[.check packet], ?_⟩
      simp [System.exec, next, check, CipherState.decrypt, haead, hshort, hcheck, Except.map,
        Except.toOption]
  | true =>
      cases hopen : a.openBytes (CipherState.wireNonce packet) (packet.drop nonceSize) with
      | none =>
          refine ⟨[.check packet, .openPacket m.calls.length], ?_⟩
          simp [System.exec, next, check, CipherState.decrypt, haead, hshort, hcheck, hopen,
            Except.map, Except.toOption]
      | some plaintext =>
          refine ⟨[.check packet, .openPacket m.calls.length, .update m.calls.length], ?_⟩
          simp [System.exec, next, check, CipherState.decrypt, haead, hshort, hcheck, hopen,
            Except.map, Except.toOption]

/-! ## At most once -/

/-- The call has succeeded, or it will if it goes on. -/
def wins (m : Decrypting) (c : DecryptCall) : Prop :=
  c.succeeded ∨ m.opening c

/-- What holds between two steps. -/
structure Once (m : Decrypting) : Prop where
  encrypted : m.state.aead.isSome
  recorded : m.state.replay.Exact {n | ∃ c ∈ m.calls, c.succeeded ∧ c.nonce = n}
  nonce_ne_zero : ∀ c ∈ m.calls, c.pending → c.nonce ≠ 0
  distinct : ∀ (i j : ℕ) (c d : DecryptCall), m.calls[i]? = some c → m.calls[j]? = some d →
    m.wins c → m.wins d → c.nonce = d.nonce → i = j

theorem once_start (a : Aead) : Once ⟨.init (some a), []⟩ where
  encrypted := rfl
  recorded := by simpa [CipherState.init] using ReplayWindow.exact_init
  nonce_ne_zero := by simp
  distinct := by simp

theorem check_cases (hencrypted : m.state.aead.isSome) (packet : Bytes) :
    (∃ e, m.check packet = .returned packet (.error e)) ∨
      m.check packet = .checked packet ∧
        m.state.replay.check (CipherState.wireNonce packet) := by
  obtain ⟨a, haead⟩ := Option.isSome_iff_exists.mp hencrypted
  simp only [check, haead]
  split
  · exact .inl ⟨_, rfl⟩
  · split
    · exact .inl ⟨_, rfl⟩
    · rename_i hcheck
      exact .inr ⟨rfl, by simpa using hcheck⟩

/-- A call that has not succeeded joins. -/
theorem Once.append {c : DecryptCall} (h : Once m) (hfails : c.succeeded = false)
    (hzero : c.pending → c.nonce ≠ 0)
    (hnew : m.wins c → ∀ d ∈ m.calls, m.wins d → d.nonce ≠ c.nonce) :
    Once { m with calls := m.calls ++ [c] } where
  encrypted := h.encrypted
  recorded := by
    have hsame : {n | ∃ d ∈ m.calls ++ [c], d.succeeded ∧ d.nonce = n} =
        {n | ∃ d ∈ m.calls, d.succeeded ∧ d.nonce = n} := by
      ext n
      simp [hfails]
    rw [hsame]
    exact h.recorded
  nonce_ne_zero d hd := by
    rcases List.mem_append.mp hd with hd | hd
    · exact h.nonce_ne_zero d hd
    · cases List.mem_singleton.mp hd
      exact hzero
  distinct := by
    intro i j d e hi hj hd he hnonce
    have hcases : ∀ k e, (m.calls ++ [c])[k]? = some e →
        m.calls[k]? = some e ∨ k = m.calls.length ∧ e = c := by
      intro k e hk
      grind
    rcases hcases i d hi with hold | ⟨rfl, rfl⟩ <;> rcases hcases j e hj with hold' | ⟨rfl, rfl⟩
    · exact h.distinct i j d e hold hold' hd he hnonce
    · exact absurd hnonce (hnew he d (List.mem_of_getElem? hold) hd)
    · exact absurd hnonce.symm (hnew hd e (List.mem_of_getElem? hold') he)
    · rfl

/-- One call goes on. -/
theorem Once.set {i : ℕ} {c d : DecryptCall} {replay : ReplayWindow} (h : Once m)
    (hcall : m.calls[i]? = some c) (hpending : c.pending) (hnonce : d.nonce = c.nonce)
    (hwins : m.wins d → m.wins c)
    (hreplay : replay.Exact
      {n | (∃ e ∈ m.calls, e.succeeded ∧ e.nonce = n) ∨ d.succeeded ∧ d.nonce = n}) :
    Once { state := { m.state with replay }, calls := m.calls.set i d } := by
  have hlt : i < m.calls.length := (List.getElem?_eq_some_iff.mp hcall).1
  have hcases : ∀ k e, (m.calls.set i d)[k]? = some e →
      k = i ∧ e = d ∨ k ≠ i ∧ m.calls[k]? = some e := by
    intro k e hk
    grind
  have hfails : c.succeeded = false := by
    cases c <;> first | rfl | cases hpending
  constructor
  · exact h.encrypted
  · have hset : {n | ∃ e ∈ m.calls.set i d, e.succeeded ∧ e.nonce = n} =
        {n | (∃ e ∈ m.calls, e.succeeded ∧ e.nonce = n) ∨ d.succeeded ∧ d.nonce = n} := by
      ext n
      constructor
      · rintro ⟨e, he, hok, rfl⟩
        rcases List.mem_or_eq_of_mem_set he with he | rfl
        · exact .inl ⟨e, he, hok, rfl⟩
        · exact .inr ⟨hok, rfl⟩
      · rintro (⟨e, he, hok, rfl⟩ | ⟨hok, rfl⟩)
        · obtain ⟨k, hk⟩ := List.mem_iff_getElem?.mp he
          have hne : i ≠ k := by
            rintro rfl
            cases hcall.symm.trans hk
            rw [hfails] at hok
            cases hok
          refine ⟨e, List.mem_iff_getElem?.mpr ⟨k, ?_⟩, hok, rfl⟩
          rw [List.getElem?_set_ne hne, hk]
        · exact ⟨d, List.mem_set hlt d, hok, rfl⟩
    rw [hset]
    exact hreplay
  · intro e he hpending'
    rcases List.mem_or_eq_of_mem_set he with he | rfl
    · exact h.nonce_ne_zero e he hpending'
    · rw [hnonce]
      exact h.nonce_ne_zero c (List.mem_of_getElem? hcall) hpending
  · intro j k e f hj hk he hf hsame
    -- where the new call stands, the old one stood with the same nonce
    have hold : ∀ (l : ℕ) (g : DecryptCall), (m.calls.set i d)[l]? = some g → m.wins g →
        ∃ g', m.calls[l]? = some g' ∧ m.wins g' ∧ g'.nonce = g.nonce := by
      intro l g hl hg
      rcases hcases l g hl with ⟨rfl, rfl⟩ | ⟨-, hl⟩
      · exact ⟨c, hcall, hwins hg, hnonce.symm⟩
      · exact ⟨g, hl, hg, rfl⟩
    obtain ⟨e', hj', he', hsame₁⟩ := hold j e hj he
    obtain ⟨f', hk', hf', hsame₂⟩ := hold k f hk hf
    exact h.distinct j k e' f' hj' hk' he' hf' (hsame₁.trans (hsame.trans hsame₂.symm))

theorem Once.check (h : Once m) (packet : Bytes) (hguard : m.exclusive (.check packet)) :
    Once { m with calls := m.calls ++ [m.check packet] } := by
  rcases check_cases h.encrypted packet with ⟨e, hcall⟩ | ⟨hcall, hcheck⟩ <;> rw [hcall]
  · refine h.append rfl nofun ?_
    rintro (hok | hopening)
    · cases hok
    · cases hopening
  · obtain ⟨hzero, hnew, -⟩ := (ReplayWindow.check_iff h.recorded).mp hcheck
    refine h.append rfl (fun _ => hzero) ?_
    rintro (hok | hgenuine) d hd (hok' | hopening) hnonce
    · cases hok
    · cases hok
    · exact hnew ⟨d, hd, hok', hnonce⟩
    · -- two genuine packets under way: what the guard excludes
      have hgenuine' : m.genuine packet = true := hgenuine
      simp only [exclusive, hgenuine', Bool.not_true, Bool.false_or, List.all_eq_true] at hguard
      have hfree := hguard d hd
      rw [hopening, hnonce] at hfree
      simp [DecryptCall.nonce] at hfree

theorem Once.openPacket {i : ℕ} (h : Once m) (hnext : m.next (.openPacket i) = some m') :
    Once m' := by
  obtain ⟨packet, call, hcall, hresult, rfl⟩ := next_openPacket_inv hnext
  have hkept : m.state.replay.Exact
      {n | (∃ e ∈ m.calls, e.succeeded ∧ e.nonce = n) ∨ call.succeeded ∧ call.nonce = n} := by
    have hfails : call.succeeded = false := by
      rcases hresult with rfl | ⟨-, plaintext, rfl⟩ <;> rfl
    simpa [hfails] using h.recorded
  rcases hresult with rfl | ⟨hgenuine, plaintext, rfl⟩
  · refine h.set hcall rfl rfl ?_ hkept
    rintro (hok | hopening)
    · cases hok
    · cases hopening
  · exact h.set hcall rfl rfl (fun _ => .inr hgenuine) hkept

theorem Once.update {i : ℕ} (h : Once m) (hnext : m.next (.update i) = some m') : Once m' := by
  obtain ⟨packet, plaintext, hcall, rfl⟩ := next_update_inv hnext
  have hwins : m.wins (.opened packet plaintext) := .inr rfl
  refine h.set hcall rfl rfl (fun _ => hwins) ?_
  have hzero := h.nonce_ne_zero _ (List.mem_of_getElem? hcall) rfl
  -- no call with this nonce can have succeeded: it would be this one
  have hnew : CipherState.wireNonce packet ∉
      {n | ∃ c ∈ m.calls, c.succeeded ∧ c.nonce = n} := by
    rintro ⟨c, hc, hok, hnonce⟩
    obtain ⟨j, hj⟩ := List.mem_iff_getElem?.mp hc
    obtain rfl := h.distinct j i c _ hj hcall (.inl hok) hwins hnonce
    cases hcall.symm.trans hj
    cases hok
  have hexact := ReplayWindow.exact_update_of_notMem h.recorded hzero hnew
  have hset : {n | (∃ c ∈ m.calls, c.succeeded ∧ c.nonce = n) ∨
      (DecryptCall.returned packet (.ok plaintext)).succeeded ∧
        (DecryptCall.returned packet (.ok plaintext)).nonce = n} =
      insert (CipherState.wireNonce packet)
        {n | ∃ c ∈ m.calls, c.succeeded ∧ c.nonce = n} := by
    ext n
    constructor
    · rintro (hold | ⟨-, rfl⟩)
      · exact .inr hold
      · exact .inl rfl
    · rintro (rfl | hold)
      · exact .inr ⟨rfl, rfl⟩
      · exact .inl hold
  rw [hset]
  exact hexact

theorem Once.next {a : Action} (h : Once m) (hguard : m.exclusive a)
    (hnext : m.next a = some m') : Once m' := by
  cases a with
  | check packet =>
      cases hnext
      exact h.check packet hguard
  | openPacket i => exact h.openPacket hnext
  | update i => exact h.update hnext

/-- In every run in which no genuine packet is checked while another one with
its nonce is between its check and its update, two calls that succeed with one
nonce are the same call. -/
theorem nonce_accepted_once {hist : List (Decrypting × Action)} (hrun : system.Run hist m)
    (hguard : System.Guarded (fun m a => m.exclusive a = true) hist) {i j : ℕ}
    {packet packet' plaintext plaintext' : Bytes}
    (hi : m.calls[i]? = some (.returned packet (.ok plaintext)))
    (hj : m.calls[j]? = some (.returned packet' (.ok plaintext')))
    (hnonce : CipherState.wireNonce packet = CipherState.wireNonce packet') : i = j := by
  have hstart : ∀ m, system.init m → Once m := by
    rintro _ ⟨a, rfl⟩
    exact once_start a
  have hstep : ∀ hist m a m', system.Run hist m → Once m → m.exclusive a = true →
      system.step m a m' → Once m' := fun _ _ _ _ _ h hexclusive hnext => h.next hexclusive hnext
  have hinv : Once m := hrun.guarded_invariant hstart hstep hguard
  exact hinv.distinct i j _ _ hi hj (.inl rfl) (.inl rfl) hnonce

/-- An empty packet with a nonce of one byte. -/
def zeroPacket (nonce : UInt8) : Bytes :=
  nonce :: List.replicate (nonceSize - 1 + tagSize) 0

def zeroStart : Decrypting :=
  ⟨.init (some zeroTagAead), []⟩

/-- A step that the guard allows. -/
def nextExclusive (m : Decrypting) (a : Action) : Option Decrypting :=
  if m.exclusive a then m.next a else none

/-- Two packets are decrypted at the same time, the newer one is done first, and
the older one then comes again. -/
theorem nonce_accepted_once_two : ∃ hist m, system.Run hist m ∧
    m.calls[0]? = some (.returned (zeroPacket 1) (.ok [])) ∧
    m.calls[1]? = some (.returned (zeroPacket 2) (.ok [])) ∧
    ∀ i plaintext, m.calls[i]? = some (.returned (zeroPacket 1) (.ok plaintext)) → i = 0 := by
  have hexec : (System.exec nextExclusive zeroStart
      [.check (zeroPacket 1), .check (zeroPacket 2), .openPacket 1, .openPacket 0, .update 1,
        .update 0, .check (zeroPacket 1)]).any (fun m => decide
      (m.calls[0]? = some (.returned (zeroPacket 1) (.ok [])) ∧
        m.calls[1]? = some (.returned (zeroPacket 2) (.ok [])))) = true := by
    decide +kernel
  obtain ⟨m, hreached, hm⟩ := (Option.any_eq_true ..).mp hexec
  obtain ⟨hfirst, hsecond⟩ := of_decide_eq_true hm
  have hnext : ∀ m a m', nextExclusive m a = some m' →
      system.step m a m' ∧ m.exclusive a = true := by
    intro m a m' h
    obtain ⟨hallowed, hstep⟩ := Option.ite_none_right_eq_some.mp h
    exact ⟨hstep, hallowed⟩
  obtain ⟨hist, hrun, hguard⟩ := System.Run.exec_checked hnext (.start ⟨zeroTagAead, rfl⟩)
    (System.guarded_nil fun (m : Decrypting) a => m.exclusive a = true) hreached
  refine ⟨hist, m, hrun, hfirst, hsecond, ?_⟩
  intro i plaintext hi
  exact nonce_accepted_once hrun hguard hi hfirst rfl

/-- Two calls check one packet before either of them has recorded it, and both
succeed. -/
theorem nonce_accepted_twice : ∃ hist m, system.Run hist m ∧
    m.calls[0]? = some (.returned (zeroPacket 1) (.ok [])) ∧
    m.calls[1]? = some (.returned (zeroPacket 1) (.ok [])) := by
  have hexec : (System.exec next zeroStart
      [.check (zeroPacket 1), .check (zeroPacket 1), .openPacket 0, .update 0, .openPacket 1,
        .update 1]).any (fun m => decide
      (m.calls[0]? = some (.returned (zeroPacket 1) (.ok [])) ∧
        m.calls[1]? = some (.returned (zeroPacket 1) (.ok [])))) = true := by
    decide +kernel
  obtain ⟨hist, m, hrun, hm⟩ :=
    System.exists_run (S := system) (fun _ _ _ h => h) ⟨zeroTagAead, rfl⟩ _ _ hexec
  exact ⟨hist, m, hrun, of_decide_eq_true hm⟩

end Decrypting

end Fastwire
