/-
# Two ends of a connection

Two endpoints and a network between them. The network may lose, duplicate,
delay and reorder packets and may make up packets of its own; what it cannot do
is authenticate them. So a packet that decrypts carries a plaintext which the
other end has sealed at some time before, and nothing else is known about it.
-/

import Fastwire.Endpoint.SendSide

namespace Fastwire

open Lib

inductive Side
  | left
  | right
  deriving DecidableEq, Repr

def Side.other : Side → Side
  | .left => .right
  | .right => .left

theorem Side.eq_other_of_ne {s t : Side} (h : t ≠ s) : t = s.other := by
  cases s <;> cases t <;> simp_all [other]

theorem Side.other_ne (s : Side) : s.other ≠ s := by
  cases s <;> simp [other]

/-- The plaintext of the RESPONSE, which the client seals during the
handshake. -/
def responsePlaintext (token : Bytes) : Except Err Bytes :=
  buildControlPacket 64 ⟨flagControl, 0, 0, 0, 0⟩ (ControlType.response.toByte :: token)

/-- A client and a server that talk to each other. -/
structure Pair where
  left : Endpoint
  right : Endpoint

namespace Pair

def get (p : Pair) : Side → Endpoint
  | .left => p.left
  | .right => p.right

def set (p : Pair) (s : Side) (e : Endpoint) : Pair :=
  match s with
  | .left => { p with left := e }
  | .right => { p with right := e }

@[simp]
theorem get_set (p : Pair) (s : Side) (e : Endpoint) : (p.set s e).get s = e := by
  cases s <;> rfl

@[simp]
theorem get_other_set (p : Pair) (s : Side) (e : Endpoint) :
    (p.set s e).get s.other = p.get s.other := by
  cases s <;> rfl

@[simp]
theorem get_set_other (p : Pair) (s : Side) (e : Endpoint) :
    (p.set s.other e).get s = p.get s := by
  cases s <;> rfl

/-- A packet that decrypts carries what the other end has sealed. -/
def authentic (p : Pair) (s : Side) : Act → Bool
  | .packet _ data =>
      match (p.get s).conn.recvCipher.decrypt data with
      | .error _ => true
      | .ok (plaintext, _) => plaintext ∈ (p.get s.other).conn.sendCipher.sealed
  | _ => true

def step (p : Pair) (move : Side × Act) : Option Pair :=
  if p.authentic move.1 move.2 then ((p.get move.1).step move.2).map (p.set move.1) else none

/-- An endpoint right after the handshake. -/
def Fresh (e : Endpoint) : Prop :=
  ∃ input now, e = Endpoint.start input now ∧
    ∀ raw ∈ input.sendCipher.sealed, ∃ token, responsePlaintext token = .ok raw

/-- Nothing but control packets is in play right after the handshake. -/
theorem Fresh.control {e : Endpoint} {raw : Bytes} {hdr : PacketHeader} {n : ℕ} (h : Fresh e)
    (hraw : e.InPlay raw) (hparse : unmarshalHeader raw = .ok (hdr, n)) :
    hdr.flags &&& flagControl ≠ 0 := by
  obtain ⟨input, now, rfl, hsealed⟩ := h
  obtain ⟨token, htoken⟩ := hsealed raw (Endpoint.inPlay_start hraw)
  exact control_of_buildControlPacket htoken hparse

def system : System Pair (Side × Act) where
  init p := ∀ s, Fresh (p.get s)
  step p move p' := p.step move = some p'

theorem step_eq_some_iff {p p' : Pair} {s : Side} {a : Act} :
    p.step (s, a) = some p' ↔
      p.authentic s a = true ∧ ∃ e', (p.get s).step a = some e' ∧ p' = p.set s e' := by
  rw [step]
  split
  · simp [*, eq_comm]
  · simp [*]

/-- A packet that one end opens was sealed by the other end. -/
theorem sealed_of_openPacket {p : Pair} {s : Side} {now : ℤ} {data body : Bytes}
    {hdr : PacketHeader} (hauth : p.authentic s (.packet now data) = true)
    (hopen : (p.get s).conn.openPacket data = some (hdr, body)) :
    ∃ plaintext n, plaintext ∈ (p.get s.other).conn.sendCipher.sealed ∧
      unmarshalHeader plaintext = .ok (hdr, n) ∧ body = plaintext.drop n := by
  rw [Connection.openPacket] at hopen
  split at hopen
  · cases hopen
  rename_i plaintext cipher hdecrypt
  split at hopen
  · cases hopen
  rename_i hdr' n hparse
  cases hopen
  exact ⟨plaintext, n, by simpa [authentic, hdecrypt] using hauth, hparse, rfl⟩

/-- What a fresh end has and an end keeps by itself, both ends of a pair have. -/
theorem get_invariant (Inv : Endpoint → Prop) {hist : List (Pair × (Side × Act))} {p : Pair}
    (hfresh : ∀ e, Fresh e → Inv e)
    (hstep : ∀ (e e' : Endpoint) (a : Act), e.step a = some e' → Inv e → Inv e')
    (hrun : system.Run hist p) (s : Side) : Inv (p.get s) := by
  induction hrun with
  | start starts => exact hfresh _ (starts s)
  | @step hist p p' move prior taken ih =>
      obtain ⟨s', a⟩ := move
      obtain ⟨-, e', htaken, rfl⟩ := step_eq_some_iff.mp taken
      by_cases hside : s' = s
      · subst hside
        rw [get_set]
        exact hstep _ e' a htaken ih
      · obtain rfl := Side.eq_other_of_ne hside
        rw [get_set_other]
        exact ih

/-- What one end goes through is a run of that end. -/
theorem run_get {hist : List (Pair × (Side × Act))} {p : Pair} (hrun : system.Run hist p)
    (s : Side) : ∃ hist', Endpoint.system.Run hist' (p.get s) := by
  refine get_invariant (fun e => ∃ hist', Endpoint.system.Run hist' e) (fun e hfresh => ?_)
    (fun e e' a hstep hprior => ?_) hrun s
  · obtain ⟨input, now, heq, -⟩ := hfresh
    exact ⟨[], .start ⟨input, now, heq⟩⟩
  · obtain ⟨hist', hprior⟩ := hprior
    exact ⟨_, .step hprior hstep⟩

/-- Two ends without encryption and compression and with default limits. -/
def plain (layout : List (DeliveryMode × UInt8)) : Pair :=
  ⟨.start (plainInput layout) 0, .start (plainInput layout) 0⟩

theorem init_plain (layout : List (DeliveryMode × UInt8)) : system.init (plain layout) := by
  intro s
  refine ⟨plainInput layout, 0, ?_, fun raw hraw => by cases hraw⟩
  cases s <;> rfl

/-- The acts of sending one packet without interruption. -/
def sendActs (id : UInt8) (seq : ℕ) (fragment : Bool) (body raw : Bytes) : List Act :=
  [.number id, .stamp id seq fragment body, .transmit ⟨id, seq, raw⟩ true,
    .queue ⟨id, seq, raw⟩ 0]

theorem sound_get {hist : List (Pair × (Side × Act))} {p : Pair} (hrun : system.Run hist p)
    (s : Side) : (p.get s).Sound := by
  obtain ⟨hist', hend⟩ := run_get hrun s
  exact Endpoint.sound_of_run hend

end Pair

end Fastwire
