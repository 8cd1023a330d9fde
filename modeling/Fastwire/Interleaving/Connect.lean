/-
# A connection attempt

`Client.Connect` starts the read loop and waits for it. Until the client counts
as connected the read loop handles every datagram as a handshake packet, also
after it has signalled the outcome: nothing but the flag `connected`, which
`Connect` sets in the end, makes it stop. Here the two run interleaved, one
access to what they share at a time.

The outcome of an attempt is decided once in every run in which the read loop
handles nothing that would decide it again.
-/

import Fastwire.Handshake.Agreement
import Fastwire.Lib.Run

namespace Fastwire

open Crypto Lib

namespace Client

/-! ## The two goroutines -/

/-- Where the read loop is. -/
inductive Attempt.Reader
  /-- In `Read`. Once the socket is closed, the loop has ended. -/
  | reading
  /-- A datagram has been read. -/
  | received (data : Bytes)
  /-- The client was not connected: the datagram is a handshake packet. -/
  | handling (data : Bytes)
  /-- About to set `connectErr`. -/
  | failing (err : Err)
  /-- About to set `server` to a connection that has been created. -/
  | publishing (conn : ℕ)
  /-- About to close `connectDone`. -/
  | signalling
  deriving DecidableEq

/-- The read loop is about to decide the outcome, or to signal it. -/
def Attempt.Reader.deciding : Attempt.Reader → Bool
  | failing _ | publishing _ | signalling => true
  | _ => false

/-- Where `Connect` is. -/
inductive Attempt.Caller
  /-- In the `select` over `connectDone` and the timer. -/
  | waiting
  /-- `connectDone` has been closed. -/
  | checking
  /-- `connectErr` was nil. -/
  | fetching
  /-- `server` has been read. -/
  | installing (conn : ℕ)
  /-- The connection can send. -/
  | finishing (conn : ℕ)
  /-- Returned without an error. -/
  | connected (conn : ℕ)
  /-- About to close the socket. -/
  | closing (timedOut : Bool)
  /-- In `wg.Wait`. -/
  | joining (timedOut : Bool)
  /-- Returned `connectErr`. -/
  | failed (err : Option Err)
  /-- Returned `ErrHandshakeTimeout`. -/
  | timedOut

namespace Attempt.Caller

/-- `Connect` has learnt that the outcome is decided, and has found no error if
it has gone on. -/
def informed : Caller → Bool
  | checking | fetching | installing _ | finishing _ | connected _ => true
  | _ => false

def conn : Caller → Option ℕ
  | installing i | finishing i | connected i => some i
  | _ => none

end Attempt.Caller

/-- The client while it connects. Connections are named by their position in a
list of all that were ever created. -/
structure Attempt where
  server : Option ℕ
  connectErr : Option Err
  /-- `connectDone` is closed. -/
  done : Bool
  /-- `connectAborted`. -/
  aborted : Bool
  connected : Bool
  /-- The socket is closed. -/
  closed : Bool
  heap : List Connection
  /-- The cipher states that have encrypted a RESPONSE, with their keys. This is
  a history variable: the code keeps the cipher states in the connections. -/
  sealers : List (Bytes × CipherState)
  /-- The connection with `sendFunc`. -/
  installed : Option ℕ
  reader : Attempt.Reader
  caller : Attempt.Caller

inductive Attempt.Action
  /-- The read loop reads a datagram. -/
  | receive (data : Bytes)
  /-- The read loop goes on. The RESPONSE might not be written. -/
  | read (now : ℤ) (writeFailed : Bool)
  /-- The timer of `Connect` fires first. -/
  | timeout
  /-- `Connect` goes on. -/
  | connect

namespace Attempt

def start : Attempt :=
  ⟨none, none, false, false, false, false, [], [], none, .reading, .waiting⟩

section

variable (P : Primitives) (codecs : Codecs) (config : ClientConfig) (clientKP : P.Private)
  (serverAddr : AddrPort) (m : Attempt)

/-- The key under which the client encrypts after a challenge. -/
def sendKey (challenge : ChallengePacket) : Bytes :=
  ((P.deriveKeys clientKP challenge.publicKey challenge.challengeToken
    challenge.selectedCipher).toOption.map Prod.fst).getD []

/-- `handleChallenge` up to the lock: the cipher states are built anew, the
RESPONSE is encrypted and written, the connection is created. -/
def handleChallenge (now : ℤ) (writeFailed : Bool) (data : Bytes) : Attempt :=
  match clientProcessChallenge P data clientKP, parseChallenge data with
  | .ok (sendCipher, recvCipher, _, _), .ok challenge =>
      let sealers := m.sealers ++ [(sendKey P clientKP challenge, sendCipher)]
      if m.closed || writeFailed then { m with sealers, reader := .failing .socket }
      else
        { m with
          sealers
          heap := m.heap ++
            [config.connection codecs serverAddr now challenge sendCipher recvCipher]
          reader := .publishing m.heap.length }
  | .error e, _ => { m with reader := .failing e }
  -- What has been answered has been parsed.
  | .ok _, .error e => { m with reader := .failing e }

/-- `processHandshakePacket` up to its first access to what is shared. -/
def processHandshakePacket (now : ℤ) (writeFailed : Bool) (data : Bytes) : Attempt :=
  match parseControlPacket data with
  | .error _ => { m with reader := .reading }
  | .ok (_, ct, _) =>
      match ControlType.ofByte ct with
      | some .challenge =>
          m.handleChallenge P codecs config clientKP serverAddr now writeFailed data
      | some .versionMismatch => { m with reader := .failing .versionMismatch }
      | some .reject => { m with reader := .failing .connectionClosed }
      | _ => { m with reader := .reading }

/-- The next step of `readLoop` with a datagram. When the client is connected
the datagram is queued for the tick. -/
def readLoop (now : ℤ) (writeFailed : Bool) : Option Attempt :=
  match m.reader with
  | .reading => none
  | .received data => some { m with reader := if m.connected then .reading else .handling data }
  | .handling data =>
      some (m.processHandshakePacket P codecs config clientKP serverAddr now writeFailed data)
  | .failing e => some { m with connectErr := some e, reader := .signalling }
  | .publishing i =>
      if m.aborted then some { m with reader := .reading }
      else some { m with server := some i, reader := .signalling }
  | .signalling => some { m with done := true, reader := .reading }

def connect : Option Attempt :=
  match m.caller with
  | .waiting => if m.done then some { m with caller := .checking } else none
  | .checking =>
      some { m with caller := if m.connectErr.isSome then .closing false else .fetching }
  -- Without a connection the code would panic.
  | .fetching => m.server.map fun i => { m with caller := .installing i }
  | .installing i => some { m with installed := some i, caller := .finishing i }
  | .finishing i => some { m with connected := true, caller := .connected i }
  | .closing timedOut => some { m with closed := true, caller := .joining timedOut }
  | .joining timedOut =>
      match m.reader with
      | .reading =>
          some { m with caller := if timedOut then .timedOut else .failed m.connectErr }
      | _ => none
  | _ => none

def next : Action → Option Attempt
  | .receive data =>
      match m.reader with
      | .reading => if m.closed then none else some { m with reader := .received data }
      | _ => none
  | .read now writeFailed => m.readLoop P codecs config clientKP serverAddr now writeFailed
  | .timeout =>
      match m.caller with
      | .waiting => some { m with aborted := true, caller := .closing true }
      | _ => none
  | .connect => m.connect

def system : System Attempt Action where
  init m := m = start
  step m a m' := m.next P codecs config clientKP serverAddr a = some m'

end

/-! ## What a handshake packet does -/

def controlType (data : Bytes) : Option ControlType :=
  match parseControlPacket data with
  | .error _ => none
  | .ok (_, ct, _) => ControlType.ofByte ct

/-- Handling the datagram decides the outcome of the attempt. -/
def decides (data : Bytes) : Bool :=
  controlType data = some .challenge ∨ controlType data = some .versionMismatch ∨
    controlType data = some .reject

section

variable {P : Primitives} {codecs : Codecs} {config : ClientConfig} {clientKP : P.Private}
  {serverAddr : AddrPort} {m m' : Attempt}

/-- What `Connect` reads, and where it is, is the same. -/
structure Same (m m' : Attempt) : Prop where
  server : m'.server = m.server
  connectErr : m'.connectErr = m.connectErr
  done : m'.done = m.done
  aborted : m'.aborted = m.aborted
  installed : m'.installed = m.installed
  caller : m'.caller = m.caller

theorem handleChallenge_spec (now : ℤ) (writeFailed : Bool) (data : Bytes) :
    Same m (m.handleChallenge P codecs config clientKP serverAddr now writeFailed data) ∧
    (m.handleChallenge P codecs config clientKP serverAddr now writeFailed data).reader.deciding ∧
    ∃ created, created.length ≤ 1 ∧
      (m.handleChallenge P codecs config clientKP serverAddr now writeFailed data).sealers =
        m.sealers ++ created := by
  rw [handleChallenge]
  split
  · rename_i sendCipher recvCipher _ _ challenge _ _
    refine ⟨?_, ?_, [(sendKey P clientKP challenge, sendCipher)], le_rfl, ?_⟩
    · split <;> exact ⟨rfl, rfl, rfl, rfl, rfl, rfl⟩
    · split <;> rfl
    · split <;> rfl
  all_goals exact ⟨⟨rfl, rfl, rfl, rfl, rfl, rfl⟩, rfl, [], Nat.zero_le _, (List.append_nil _).symm⟩

/-- A handshake packet leaves everything to the steps that follow. Only a packet
that decides the outcome has any, and only a challenge makes the client encrypt,
once. -/
theorem processHandshakePacket_spec (now : ℤ) (writeFailed : Bool) (data : Bytes) :
    let m' := m.processHandshakePacket P codecs config clientKP serverAddr now writeFailed data
    Same m m' ∧ (m'.reader.deciding → decides data) ∧
    ∃ created, created.length ≤ 1 ∧ m'.sealers = m.sealers ++ created ∧
      (created ≠ [] → controlType data = some .challenge ∧ m'.reader.deciding) := by
  intro m'
  have idle : ∀ reader : Reader, (reader.deciding → decides data) →
      m' = { m with reader } → Same m m' ∧ (m'.reader.deciding → decides data) ∧
      ∃ created, created.length ≤ 1 ∧ m'.sealers = m.sealers ++ created ∧
        (created ≠ [] → controlType data = some .challenge ∧ m'.reader.deciding) := by
    intro reader hreader heq
    rw [heq]
    exact ⟨⟨rfl, rfl, rfl, rfl, rfl, rfl⟩, hreader, [], Nat.zero_le _,
      (List.append_nil _).symm, fun h => absurd rfl h⟩
  unfold m' at idle ⊢
  simp only [processHandshakePacket] at idle ⊢
  split at idle
  · exact idle .reading nofun rfl
  rename_i hdr ct payload hparse
  have htype : controlType data = ControlType.ofByte ct := by rw [controlType, hparse]
  split at idle
  · rename_i hct
    obtain ⟨hsame, hdeciding, created, hlength, hsealers⟩ :=
      handleChallenge_spec (P := P) (m := m) now writeFailed data
    have hchallenge := htype.trans hct
    exact ⟨hsame, fun _ => by simp [decides, hchallenge], created, hlength, hsealers,
      fun _ => ⟨hchallenge, hdeciding⟩⟩
  · rename_i hct
    exact idle (.failing .versionMismatch) (fun _ => by simp [decides, htype, hct]) rfl
  · rename_i hct
    exact idle (.failing .connectionClosed) (fun _ => by simp [decides, htype, hct]) rfl
  · exact idle .reading nofun rfl

/-- What a step of the read loop can do: nothing that is shared, set one of the
two variables of the outcome, or signal. A step that leaves the outcome open
although the loop was about to decide it found the attempt aborted. -/
theorem readLoop_inv {now : ℤ} {writeFailed : Bool}
    (hread : m.readLoop P codecs config clientKP serverAddr now writeFailed = some m') :
    (Same m m' ∧ m'.sealers = m.sealers ∧ m'.reader.deciding = false ∧
      (m.reader.deciding → m.aborted)) ∨
    (∃ data, m.reader = .handling data ∧ Same m m' ∧ (m'.reader.deciding → decides data) ∧
      ∃ created, created.length ≤ 1 ∧ m'.sealers = m.sealers ++ created ∧
        (created ≠ [] → controlType data = some .challenge ∧ m'.reader.deciding)) ∨
    (m.reader.deciding ∧ m'.reader.deciding ∧ m'.done = m.done ∧ m'.aborted = m.aborted ∧
      m'.installed = m.installed ∧ m'.caller = m.caller ∧ m'.sealers = m.sealers) ∨
    (m.reader = .signalling ∧ m' = { m with done := true, reader := .reading }) := by
  rw [readLoop] at hread
  split at hread
  · cases hread
  · rename_i data hreader
    cases hread
    refine .inl ⟨⟨rfl, rfl, rfl, rfl, rfl, rfl⟩, rfl, ?_, ?_⟩
    · show Reader.deciding (if m.connected then _ else _) = false
      split <;> rfl
    · rw [hreader]
      nofun
  · rename_i data hreader
    rw [← Option.some.inj hread]
    exact .inr (.inl ⟨data, hreader, processHandshakePacket_spec now writeFailed data⟩)
  · rename_i e hreader
    cases hread
    exact .inr (.inr (.inl ⟨by rw [hreader]; rfl, rfl, rfl, rfl, rfl, rfl, rfl⟩))
  · rename_i i hreader
    split at hread
    · rename_i haborted
      cases hread
      exact .inl ⟨⟨rfl, rfl, rfl, rfl, rfl, rfl⟩, rfl, rfl, fun _ => haborted⟩
    · cases hread
      exact .inr (.inr (.inl ⟨by rw [hreader]; rfl, rfl, rfl, rfl, rfl, rfl, rfl⟩))
  · rename_i hreader
    cases hread
    exact .inr (.inr (.inr ⟨hreader, rfl⟩))

/-- A step of `Connect` does not touch the outcome. What it has read and
installed is the connection it found. -/
theorem connect_inv (hconnect : m.connect = some m') :
    m'.server = m.server ∧ m'.connectErr = m.connectErr ∧ m'.done = m.done ∧
    m'.aborted = m.aborted ∧ m'.reader = m.reader ∧ m'.sealers = m.sealers ∧
    (m'.caller.informed → m.caller.informed ∨ m.done) ∧
    (∀ i, m'.caller.conn = some i → m.caller.conn = some i ∨ m.server = some i) ∧
    (∀ i, m'.installed = some i → m.installed = some i ∨ m.caller.conn = some i) := by
  rw [connect] at hconnect
  split at hconnect
  · rename_i hcaller
    split at hconnect
    · rename_i hdone
      cases hconnect
      exact ⟨rfl, rfl, rfl, rfl, rfl, rfl, fun _ => .inr hdone, nofun, fun _ => .inl⟩
    · cases hconnect
  · rename_i hcaller
    cases hconnect
    refine ⟨rfl, rfl, rfl, rfl, rfl, rfl, fun _ => .inl (by rw [hcaller]; rfl), ?_, fun _ => .inl⟩
    intro i hconn
    split at hconn <;> cases hconn
  · rename_i hcaller
    obtain ⟨i, hserver, rfl⟩ := Option.map_eq_some_iff.mp hconnect
    refine ⟨rfl, rfl, rfl, rfl, rfl, rfl, fun _ => .inl (by rw [hcaller]; rfl), ?_, fun _ => .inl⟩
    intro j hconn
    exact .inr (hserver.trans hconn)
  · rename_i i hcaller
    cases hconnect
    refine ⟨rfl, rfl, rfl, rfl, rfl, rfl, fun _ => .inl (by rw [hcaller]; rfl), ?_, ?_⟩
    · intro j hconn
      exact .inl (by rw [hcaller]; exact hconn)
    · intro j hinstalled
      exact .inr (by rw [hcaller]; exact hinstalled)
  · rename_i i hcaller
    cases hconnect
    refine ⟨rfl, rfl, rfl, rfl, rfl, rfl, fun _ => .inl (by rw [hcaller]; rfl), ?_, fun _ => .inl⟩
    intro j hconn
    exact .inl (by rw [hcaller]; exact hconn)
  · cases hconnect
    exact ⟨rfl, rfl, rfl, rfl, rfl, rfl, nofun, nofun, fun _ => .inl⟩
  · split at hconnect
    · cases hconnect
      refine ⟨rfl, rfl, rfl, rfl, rfl, rfl, ?_, ?_, fun _ => .inl⟩
      · intro hinformed
        split at hinformed <;> cases hinformed
      · intro i hconn
        split at hconn <;> cases hconn
    · cases hconnect
  · cases hconnect

/-! ## The outcome is decided once -/

/-- Nothing that would decide the outcome is handled after it was signalled, and
no challenge after `Connect` has given up. -/
def timely (m : Attempt) : Action → Bool
  | .read _ _ =>
      match m.reader with
      | .handling data =>
          !(m.done && decides data) && !(m.aborted && controlType data == some .challenge)
      | _ => true
  | _ => true

theorem timely_read {now : ℤ} {writeFailed : Bool} {data : Bytes}
    (htimely : m.timely (.read now writeFailed)) (hreader : m.reader = .handling data) :
    (m.done → decides data = false) ∧ (m.aborted → controlType data ≠ some .challenge) := by
  have hboth : (m.done = false ∨ decides data = false) ∧
      (m.aborted = false ∨ controlType data ≠ some .challenge) := by
    simpa [timely, hreader] using htimely
  exact ⟨fun hdone => hboth.1.resolve_left (by simp [hdone]),
    fun haborted => hboth.2.resolve_left (by simp [haborted])⟩

/-- What holds in every run that is timely. -/
structure Once (m : Attempt) : Prop where
  settled : m.done → m.reader.deciding = false
  informed : m.caller.informed → m.done
  fetched : ∀ i, m.caller.conn = some i → m.server = some i
  installed : ∀ i, m.installed = some i → m.done ∧ m.server = some i
  single : m.sealers.length ≤ 1
  answered : m.sealers ≠ [] → m.done ∨ m.aborted ∨ m.reader.deciding

theorem Caller.informed_of_conn {caller : Caller} {i : ℕ} (h : caller.conn = some i) :
    caller.informed := by
  cases caller <;> first | rfl | cases h

theorem once_start : Once start :=
  ⟨nofun, nofun, nofun, nofun, Nat.zero_le _, fun h => absurd rfl h⟩

/-- The facts about `Connect` and the outcome survive what changes neither. -/
theorem Once.of_same (h : Once m) (hsame : Same m m')
    (hsettled : m.done → m'.reader.deciding = false) (hsingle : m'.sealers.length ≤ 1)
    (hanswered : m'.sealers ≠ [] → m.done ∨ m.aborted ∨ m'.reader.deciding) : Once m' where
  settled := by rw [hsame.done]; exact hsettled
  informed := by rw [hsame.caller, hsame.done]; exact h.informed
  fetched := by rw [hsame.caller, hsame.server]; exact h.fetched
  installed := by rw [hsame.installed, hsame.done, hsame.server]; exact h.installed
  single := hsingle
  answered := by rw [hsame.done, hsame.aborted]; exact hanswered

theorem Once.readLoop (h : Once m) {now : ℤ} {writeFailed : Bool}
    (hallowed : m.timely (.read now writeFailed))
    (hread : m.readLoop P codecs config clientKP serverAddr now writeFailed = some m') :
    Once m' := by
  obtain ⟨hsame, hsealers, hidle, haborted⟩ |
    ⟨data, hreader, hsame, hdecides, created, hlength, hsealers, hcreated⟩ |
    ⟨hbefore, hafter, hdone, haborted, hinstalled, hcaller, hsealers⟩ | ⟨hreader, rfl⟩ :=
    readLoop_inv hread
  · refine h.of_same hsame (fun _ => hidle) (hsealers ▸ h.single) ?_
    intro hne
    rcases h.answered (hsealers ▸ hne) with hdone | hgone | hdeciding
    · exact .inl hdone
    · exact .inr (.inl hgone)
    · exact .inr (.inl (haborted hdeciding))
  · obtain ⟨hdone, hgone⟩ := timely_read hallowed hreader
    have hopen : m.reader.deciding = false := by rw [hreader]; rfl
    refine h.of_same hsame ?_ ?_ ?_
    · intro hd
      have hnot := hdone hd
      by_contra hdeciding
      rw [hdecides (by simpa using hdeciding)] at hnot
      cases hnot
    · rw [hsealers, List.length_append]
      by_cases hnew : created = []
      · simpa [hnew] using h.single
      -- The first challenge: neither signalled nor aborted, so nothing was encrypted before.
      · obtain ⟨hchallenge, -⟩ := hcreated hnew
        have hnone : m.sealers = [] := by
          by_contra hsome
          rcases h.answered hsome with hd | ha | hr
          · have hnot := hdone hd
            simp [decides, hchallenge] at hnot
          · exact hgone ha hchallenge
          · rw [hopen] at hr
            cases hr
        simpa [hnone] using hlength
    · intro hne
      by_cases hnew : created = []
      · rw [hsealers, hnew, List.append_nil] at hne
        rcases h.answered hne with hd | ha | hr
        · exact .inl hd
        · exact .inr (.inl ha)
        · rw [hopen] at hr
          cases hr
      · exact .inr (.inr (hcreated hnew).2)
  -- Nothing has been signalled, so `Connect` has read nothing yet.
  · have hpending : ¬ m.done := fun hd => by
      rw [h.settled hd] at hbefore
      cases hbefore
    refine ⟨fun hd => absurd (hdone ▸ hd) hpending, ?_, ?_, ?_, hsealers ▸ h.single,
      fun _ => .inr (.inr hafter)⟩
    · rw [hcaller, hdone]
      exact h.informed
    · intro i hconn
      rw [hcaller] at hconn
      exact absurd (h.informed (Caller.informed_of_conn hconn)) hpending
    · intro i hi
      rw [hinstalled] at hi
      exact absurd (h.installed i hi).1 hpending
  · exact ⟨fun _ => rfl, fun _ => rfl, h.fetched, fun i hi => ⟨rfl, (h.installed i hi).2⟩, h.single,
      fun _ => .inl rfl⟩

theorem Once.connect (h : Once m) (hconnect : m.connect = some m') : Once m' := by
  obtain ⟨hserver, herr, hdone, haborted, hreader, hsealers, hinformed, hconn, hinstalled⟩ :=
    connect_inv hconnect
  refine ⟨by rw [hdone, hreader]; exact h.settled, ?_, ?_, ?_, hsealers ▸ h.single, ?_⟩
  · intro hi
    rw [hdone]
    exact (hinformed hi).elim h.informed id
  · intro i hi
    rw [hserver]
    exact (hconn i hi).elim (h.fetched i) id
  · intro i hi
    rw [hdone, hserver]
    rcases hinstalled i hi with hbefore | hnow
    · exact h.installed i hbefore
    · exact ⟨h.informed (Caller.informed_of_conn hnow), h.fetched i hnow⟩
  · rw [hsealers, hdone, haborted, hreader]
    exact h.answered

theorem next_receive_inv {data : Bytes}
    (hnext : m.next P codecs config clientKP serverAddr (.receive data) = some m') :
    m.reader = .reading ∧ m' = { m with reader := .received data } := by
  rw [next] at hnext
  split at hnext
  · rename_i hreader
    split at hnext
    · cases hnext
    · cases hnext
      exact ⟨hreader, rfl⟩
  · cases hnext

theorem next_timeout_inv
    (hnext : m.next P codecs config clientKP serverAddr .timeout = some m') :
    m.caller = .waiting ∧ m' = { m with aborted := true, caller := .closing true } := by
  rw [next] at hnext
  split at hnext
  · rename_i hcaller
    cases hnext
    exact ⟨hcaller, rfl⟩
  · cases hnext

theorem Once.next (h : Once m) {a : Action} (hallowed : m.timely a)
    (hnext : m.next P codecs config clientKP serverAddr a = some m') : Once m' := by
  cases a with
  | receive data =>
      obtain ⟨hreader, rfl⟩ := next_receive_inv hnext
      refine h.of_same ⟨rfl, rfl, rfl, rfl, rfl, rfl⟩ (fun _ => rfl) h.single ?_
      intro hne
      rcases h.answered hne with hd | ha | hr
      · exact .inl hd
      · exact .inr (.inl ha)
      · rw [hreader] at hr
        cases hr
  | read now writeFailed => exact h.readLoop hallowed hnext
  | timeout =>
      obtain ⟨hcaller, rfl⟩ := next_timeout_inv hnext
      exact ⟨h.settled, nofun, nofun, h.installed, h.single, fun _ => .inr (.inl rfl)⟩
  | connect => exact h.connect hnext

/-- The outcome does not change after it was signalled. -/
theorem Once.outcome_next (h : Once m) {a : Action} (hdone : m.done)
    (hnext : m.next P codecs config clientKP serverAddr a = some m') :
    m'.done ∧ m'.server = m.server ∧ m'.connectErr = m.connectErr := by
  cases a with
  | receive data =>
      obtain ⟨-, rfl⟩ := next_receive_inv hnext
      exact ⟨hdone, rfl, rfl⟩
  | read now writeFailed =>
      obtain ⟨hsame, -⟩ | ⟨-, -, hsame, -⟩ | ⟨hbefore, -⟩ | ⟨-, rfl⟩ := readLoop_inv hnext
      · exact ⟨hsame.done.trans hdone, hsame.server, hsame.connectErr⟩
      · exact ⟨hsame.done.trans hdone, hsame.server, hsame.connectErr⟩
      · rw [h.settled hdone] at hbefore
        cases hbefore
      · exact ⟨rfl, rfl, rfl⟩
  | timeout =>
      obtain ⟨-, rfl⟩ := next_timeout_inv hnext
      exact ⟨hdone, rfl, rfl⟩
  | connect =>
      obtain ⟨hserver, herr, hd, -⟩ := connect_inv hnext
      exact ⟨hd.trans hdone, hserver, herr⟩

variable {hist : List (Attempt × Action)}

theorem once_of_run (hrun : (system P codecs config clientKP serverAddr).Run hist m)
    (htimely : System.Guarded (fun m a => m.timely a) hist) : Once m :=
  hrun.guarded_invariant (fun _ starts => starts ▸ once_start)
    (fun _ _ _ _ _ h hallowed hnext => h.next hallowed hnext) htimely

theorem outcome_of_run (hrun : (system P codecs config clientKP serverAddr).Run hist m)
    (htimely : System.Guarded (fun m a => m.timely a) hist) :
    ∀ taken ∈ hist, taken.1.done → m.done ∧ m.server = taken.1.server ∧
      m.connectErr = taken.1.connectErr := by
  induction hrun with
  | start _ =>
      intro taken hmem
      exact absurd hmem List.not_mem_nil
  | @step hist s t a prior hnext ih =>
      rw [System.guarded_cons] at htimely
      have honce := once_of_run prior htimely.2
      intro taken hmem hdone
      rcases List.mem_cons.mp hmem with rfl | hbefore
      · exact honce.outcome_next hdone hnext
      · obtain ⟨hd, hserver, herr⟩ := ih htimely.2 taken hbefore hdone
        obtain ⟨hd', hserver', herr'⟩ := honce.outcome_next hd hnext
        exact ⟨hd', hserver'.trans hserver, herr'.trans herr⟩

/-- In every timely run the outcome is decided once: after `connectDone` was
closed neither `server` nor `connectErr` changes, the connection that can send
is the one a tick takes from `server`, and no two cipher states that have
encrypted share their key. -/
theorem handshake_decided_once
    (hrun : (system P codecs config clientKP serverAddr).Run hist m)
    (htimely : System.Guarded (fun m a => m.timely a) hist) :
    (∀ taken ∈ hist, taken.1.done →
      m.server = taken.1.server ∧ m.connectErr = taken.1.connectErr) ∧
    (∀ i, m.installed = some i → m.server = some i) ∧
    (m.sealers.map Prod.fst).Nodup := by
  have honce := once_of_run hrun htimely
  refine ⟨?_, fun i hi => (honce.installed i hi).2, ?_⟩
  · intro taken hmem hdone
    exact (outcome_of_run hrun htimely taken hmem hdone).2
  · match m.sealers, honce.single with
    | [], _ => exact List.nodup_nil
    | [used], _ => exact List.nodup_singleton _

end

/-! ## Concrete attempts -/

def plainChallenge : Bytes :=
  (buildChallengePacket 128 (challengeFor plainPrimitives plainServer plainRandom
    (plainClient.connectPacket plainPrimitives plainKey))).toOption.getD []

def plainReject : Bytes := (buildRejectPacket 64 .serverFull).toOption.getD []

def plainNext (m : Attempt) (a : Action) : Option Attempt :=
  m.next plainPrimitives noCodecs plainClient plainKey ⟨0, 1⟩ a

/-- The read loop reads a datagram and finds that the client is not connected. -/
def taking (data : Bytes) : List Action := [.receive data, .read 0 false]

/-- The read loop handles a datagram that decides the outcome, to the end. -/
def decided : List Action := [.read 0 false, .read 0 false, .read 0 false]

/-- An attempt that succeeds, and then a datagram that is left to the tick. -/
theorem handshake_decided_once_connected :
    ∃ hist m, (system plainPrimitives noCodecs plainClient plainKey ⟨0, 1⟩).Run hist m ∧
      System.Guarded (fun m a => m.timely a) hist ∧ (∃ taken ∈ hist, taken.1.done) ∧
      m.installed = some 0 ∧ m.sealers.length = 1 ∧
      (∀ taken ∈ hist, taken.1.done →
        m.server = taken.1.server ∧ m.connectErr = taken.1.connectErr) ∧
      (∀ i, m.installed = some i → m.server = some i) ∧ (m.sealers.map Prod.fst).Nodup := by
  have hexec : (System.exec (fun m a => if m.timely a then m.plainNext a else none) start
      (taking plainChallenge ++ decided ++ List.replicate 5 .connect)).any (fun m =>
        m.timely (.receive plainChallenge) &&
          (m.plainNext (.receive plainChallenge)).any fun m' =>
            decide (m.done ∧ m'.installed = some 0 ∧ m'.sealers.length = 1)) = true := by
    decide +kernel
  obtain ⟨s, hs, hlast⟩ := (Option.any_eq_true ..).mp hexec
  obtain ⟨hallowed, hlast⟩ := (Bool.and_eq_true ..).mp hlast
  obtain ⟨m, hnext, hm⟩ := (Option.any_eq_true ..).mp hlast
  obtain ⟨hdone, hinstalled, hsealers⟩ := of_decide_eq_true hm
  have hstart : (system plainPrimitives noCodecs plainClient plainKey ⟨0, 1⟩).Run [] start :=
    .start rfl
  obtain ⟨hist, hrun, htimely⟩ := hstart.exec_checked (by
    intro s a t h
    obtain ⟨htimely, hstep⟩ := (Option.ite_none_right_eq_some ..).mp h
    exact ⟨hstep, htimely⟩) (System.guarded_nil fun m a => m.timely a = true) hs
  have hguarded := (System.guarded_cons (fun m a => m.timely a) s _ hist).mpr ⟨hallowed, htimely⟩
  exact ⟨_, m, .step hrun hnext, hguarded, ⟨_, List.mem_cons_self, hdone⟩, hinstalled, hsealers,
    handshake_decided_once (.step hrun hnext) hguarded⟩

/-- The last step of an execution, for a property that can be evaluated. -/
theorem exists_last_step (actions : List Action) (a : Action) (P : Attempt → Attempt → Bool)
    (h : (System.exec plainNext start actions).any (fun s => (s.plainNext a).any (P s)) = true) :
    ∃ hist s m,
      (system plainPrimitives noCodecs plainClient plainKey ⟨0, 1⟩).Run ((s, a) :: hist) m ∧
      P s m = true := by
  obtain ⟨s, hs, hlast⟩ := (Option.any_eq_true ..).mp h
  obtain ⟨m, hnext, hm⟩ := (Option.any_eq_true ..).mp hlast
  obtain ⟨hist, hrun⟩ := System.Run.exec (fun _ _ _ => id)
    (.start rfl : (system plainPrimitives noCodecs plainClient plainKey ⟨0, 1⟩).Run [] start) hs
  exact ⟨hist, s, m, .step hrun hnext, hm⟩

/-- A second copy of the CHALLENGE, handled between the signal and `connected`,
replaces the connection: the one that can send is not the one a tick takes, and
two cipher states have encrypted under one key with nonce 1. A REJECT turns a
success into an error. -/
theorem outcome_decided_again :
    (∃ hist s a m,
      (system plainPrimitives noCodecs plainClient plainKey ⟨0, 1⟩).Run ((s, a) :: hist) m ∧
      s.done ∧ s.server = some 0 ∧ m.server = some 1 ∧ m.installed = some 0 ∧ m.connected ∧
      (m.sealers.map Prod.fst).length = 2 ∧ ¬(m.sealers.map Prod.fst).Nodup ∧
      ∀ used ∈ m.sealers, used.2.aead.isSome ∧ used.2.nonce = 1) ∧
    ∃ hist s a m,
      (system plainPrimitives noCodecs plainClient plainKey ⟨0, 1⟩).Run ((s, a) :: hist) m ∧
      s.done ∧ s.server = some 0 ∧ s.connectErr = none ∧ m.connectErr = some .connectionClosed := by
  constructor
  · obtain ⟨hist, s, m, hrun, hm⟩ := exists_last_step (taking plainChallenge ++ decided ++
      taking plainChallenge ++ [.read 0 false] ++ List.replicate 5 .connect) (.read 0 false)
      (fun s m => decide (s.done ∧ s.server = some 0 ∧ m.server = some 1 ∧ m.installed = some 0 ∧
        m.connected ∧ (m.sealers.map Prod.fst).length = 2 ∧ ¬(m.sealers.map Prod.fst).Nodup ∧
        ∀ used ∈ m.sealers, used.2.aead.isSome ∧ used.2.nonce = 1)) (by decide +kernel)
    exact ⟨hist, s, _, m, hrun, of_decide_eq_true hm⟩
  · obtain ⟨hist, s, m, hrun, hm⟩ := exists_last_step (taking plainChallenge ++ decided ++
      taking plainReject ++ [.read 0 false]) (.read 0 false)
      (fun s m => decide (s.done ∧ s.server = some 0 ∧ s.connectErr = none ∧
        m.connectErr = some .connectionClosed)) (by decide +kernel)
    exact ⟨hist, s, _, m, hrun, of_decide_eq_true hm⟩

end Attempt

end Client

end Fastwire
