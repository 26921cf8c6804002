/-
# Raw game input: what merging keeps

The sender replaces a run of relative motions by one packet.  In every run in which the queue
never overflows, the packets sent stand for the packets accepted piece by piece and in order
(`coalesced_of_noOverflow`): a piece is one packet that is not relative motion, or a run of motions
for which the packet has the sums, clamped to 16 bits each time a motion is added.  A sum that is
clamped loses motion (`clamped_motion_lost`).
-/
import Mathlib.Data.List.Forall2
import Mathlib.Data.List.Induction
import XyDeskRemote.RawInputQueue

open LabelledRun List Option

/-! ## Merged motion -/

/-- Relative motion. -/
def IsMotion (p : Packet) : Prop := p.getD 4 0 = cmdMouseRel

instance (p : Packet) : Decidable (IsMotion p) := inferInstanceAs (Decidable (_ = _))

/-- The sum of the fields at `offset`, clamped to 16 bits each time. -/
def clampedSum (offset : ℕ) (motions : List Packet) : ℤ :=
  motions.foldl (fun sum p => coerceIn (sum + readInt16Le p offset) (-32768) 32767) 0

/-- The sum of the fields at `offset`. -/
def motionSum (offset : ℕ) (motions : List Packet) : ℤ :=
  (motions.map fun p => readInt16Le p offset).sum

/-- No sum on the way has more than 16 bits. -/
def SumsFit (offset : ℕ) (motions : List Packet) : Prop :=
  ∀ k ≤ motions.length, -32768 ≤ motionSum offset (motions.take k) ∧
    motionSum offset (motions.take k) ≤ 32767

/-- What a packet that is sent stands for. -/
inductive StandsFor : Packet → List Packet → Prop
  | same {p : Packet} (hp : ¬ IsMotion p) : StandsFor p [p]
  | merged {q : Packet} {motions : List Packet} (hq : IsMotion q) (hne : motions ≠ [])
      (hmotions : ∀ p ∈ motions, IsMotion p)
      (hdx : readInt16Le q 6 = clampedSum 6 motions)
      (hdy : readInt16Le q 8 = clampedSum 8 motions)
      (hsums : ∀ offset ∈ [6, 8], SumsFit offset motions →
        readInt16Le q offset = motionSum offset motions) : StandsFor q motions

theorem clampedSum_concat (offset : ℕ) (motions : List Packet) (p : Packet) :
    clampedSum offset (motions ++ [p]) =
      coerceIn (clampedSum offset motions + readInt16Le p offset) (-32768) 32767 := by
  rw [clampedSum, foldl_append]
  rfl

theorem motionSum_concat (offset : ℕ) (motions : List Packet) (p : Packet) :
    motionSum offset (motions ++ [p]) = motionSum offset motions + readInt16Le p offset := by
  rw [motionSum, map_append, sum_append, map_singleton, sum_singleton, motionSum]

theorem coerceIn_eq {x lo hi : ℤ} (hlo : lo ≤ x) (hhi : x ≤ hi) : coerceIn x lo hi = x := by
  rw [coerceIn]
  split_ifs
  all_goals omega

/-- **Sums that fit are the sums.** -/
theorem clampedSum_eq_motionSum {offset : ℕ} {motions : List Packet}
    (h : SumsFit offset motions) : clampedSum offset motions = motionSum offset motions := by
  induction motions using reverseRecOn with
  | nil => rfl
  | append_singleton motions p ih =>
    have hfront : SumsFit offset motions := by
      intro k hk
      have hsum := h k (by rw [length_append]; omega)
      rwa [take_append_of_le_length hk] at hsum
    obtain ⟨hlo, hhi⟩ := h (motions ++ [p]).length (Nat.le_refl _)
    rw [take_length, motionSum_concat] at hlo hhi
    rw [clampedSum_concat, ih hfront, motionSum_concat, coerceIn_eq hlo hhi]

theorem clampedSum_range (offset : ℕ) (motions : List Packet) :
    -32768 ≤ clampedSum offset motions ∧ clampedSum offset motions ≤ 32767 := by
  induction motions using reverseRecOn with
  | nil =>
    rw [clampedSum, foldl_nil]
    decide
  | append_singleton motions p _ =>
    rw [clampedSum_concat]
    exact coerceIn_range (by decide) _

theorem standsFor_encodeMouseRel {motions : List Packet} (hne : motions ≠ [])
    (hmotions : ∀ p ∈ motions, IsMotion p) :
    StandsFor (encodeMouseRel (clampedSum 6 motions) (clampedSum 8 motions)) motions := by
  obtain ⟨hlo, hhi⟩ := clampedSum_range 6 motions
  obtain ⟨hlo', hhi'⟩ := clampedSum_range 8 motions
  have hdx : readInt16Le (encodeMouseRel (clampedSum 6 motions) (clampedSum 8 motions)) 6 =
      clampedSum 6 motions := by
    rw [readInt16Le, encodeMouseRel, encodeCommand_arg1, coerceIn_eq hlo hhi,
      toInt_ofInt_signed hlo hhi]
  have hdy : readInt16Le (encodeMouseRel (clampedSum 6 motions) (clampedSum 8 motions)) 8 =
      clampedSum 8 motions := by
    rw [readInt16Le, encodeMouseRel, encodeCommand_arg2, coerceIn_eq hlo' hhi',
      toInt_ofInt_signed hlo' hhi']
  refine .merged rfl hne hmotions hdx hdy fun offset hoffset hfit => ?_
  rw [← clampedSum_eq_motionSum hfit]
  rcases mem_pair.1 hoffset with rfl | rfl
  · exact hdx
  · exact hdy

/-! ## The sender's side of the queue -/

namespace RawInputBridge

/-- The packets sent, without pings. -/
def datagrams (s : RawInputBridge) : List Packet := s.sent.filter fun p => p.getD 4 0 ≠ cmdPing

/-- The packets sent stand for the packets accepted, in order; behind those come the packets that
the sender has in hand, none when it waits for the queue, and the queue. -/
def Coalesced (s : RawInputBridge) : Prop :=
  ∃ pieces inHand, List.Forall₂ StandsFor s.datagrams pieces ∧
    s.accepted = pieces.flatten ++ inHand ++ s.queue ∧ (s.sender = .polling → inHand = [])

/-- What the sender has in hand. -/
def InHand : SenderPc → List Packet → List Packet → Prop
  | .polling, motions, _ => motions = []
  | .pingCheck, motions, _ => motions = []
  | .merging sumDx sumDy, motions, _ => motions ≠ [] ∧ (∀ p ∈ motions, IsMotion p) ∧
      sumDx = clampedSum 6 motions ∧ sumDy = clampedSum 8 motions
  | .peeked peek sumDx sumDy, motions, queue => motions ≠ [] ∧ (∀ p ∈ motions, IsMotion p) ∧
      sumDx = clampedSum 6 motions ∧ sumDy = clampedSum 8 motions ∧
      IsMotion peek ∧ queue.head? = some peek
  | .sending toSend, motions, _ => StandsFor toSend motions ∧ toSend.getD 4 0 ≠ cmdPing

/-- **The invariant.** -/
structure Merging (s : RawInputBridge) : Prop where
  idle : s.producer = .idle
  no_ping : ∀ p ∈ s.queue, p.getD 4 0 ≠ cmdPing
  split : ∃ pieces inHand, List.Forall₂ StandsFor s.datagrams pieces ∧
    s.accepted = pieces.flatten ++ inHand ++ s.queue ∧ InHand s.sender inHand s.queue

/-- The queue does not overflow. -/
def NoOverflow (s : RawInputBridge) (a : BridgeLabel) (_ : RawInputBridge) : Prop :=
  ∀ c, a = .call c → s.queue.length < queueCapacity

instance (s : RawInputBridge) (a : BridgeLabel) (t : RawInputBridge) :
    Decidable (NoOverflow s a t) :=
  match a with
  | .call c => decidable_of_iff (s.queue.length < queueCapacity)
      ⟨fun h _ _ => h, fun h => h c rfl⟩
  | .evict | .offerAgain | .poll | .peek | .pollMerged | .send | .pingCheck _ =>
    isTrue fun _ h => nomatch h

variable {s t : RawInputBridge}

theorem sendPacket_ne_ping {c : RawCommand} {packet : Packet} (h : c.sendPacket = some packet) :
    packet.getD 4 0 ≠ cmdPing := by
  cases c with
  | mouseRel dx dy =>
    rw [RawCommand.sendPacket] at h
    split at h
    · cases h
    · obtain rfl := some.inj h
      rw [encodeMouseRel, encodeCommand_cmd]
      decide
  | mouseAbs xNorm yNorm =>
    obtain rfl := some.inj h
    rw [encodeMouseAbs, encodeCommand_cmd]
    decide
  | mouseButton button down =>
    obtain rfl := some.inj h
    rw [encodeMouseButton, encodeCommand_cmd]
    decide
  | mouseWheel wheelDelta =>
    rw [RawCommand.sendPacket] at h
    split at h
    · cases h
    · obtain rfl := some.inj h
      rw [encodeMouseWheel, encodeCommand_cmd]
      decide
  | keyVk vk down scanCode =>
    rw [RawCommand.sendPacket] at h
    split at h
    · cases h
    · obtain rfl := some.inj h
      rw [encodeKeyVk, encodeCommand_cmd]
      decide
  | ping => cases h

theorem merging_call {c : RawCommand} (h : Merging s) (hroom : s.queue.length < queueCapacity)
    (hstep : s.onCall c = some t) : Merging t := by
  obtain ⟨pieces, inHand, hpieces, haccepted, hhand⟩ := h.split
  rw [onCall, h.idle] at hstep
  rcases hpacket : c.sendPacket with _ | packet
  · rw [hpacket] at hstep
    cases hstep
  · rw [hpacket] at hstep
    dsimp only at hstep
    rw [if_pos hroom] at hstep
    obtain rfl := some.inj hstep
    refine ⟨rfl, fun p hp => ?_, pieces, inHand, hpieces, ?_, ?_⟩
    · rcases mem_append.1 hp with hp | hp
      · exact h.no_ping p hp
      · rw [mem_singleton.1 hp]
        exact sendPacket_ne_ping hpacket
    · dsimp only
      rw [haccepted, append_assoc]
    · -- the head of the queue stays
      dsimp only
      cases hsender : s.sender with
      | peeked peek sumDx sumDy =>
        rw [hsender] at hhand
        obtain ⟨hne, hmotions, hdx, hdy, hpeek, hhead⟩ := hhand
        refine ⟨hne, hmotions, hdx, hdy, hpeek, ?_⟩
        rw [head?_append, hhead]
        rfl
      | _ =>
        rw [hsender] at hhand
        exact hhand

theorem merging_poll (h : Merging s) (hstep : s.onPoll = some t) : Merging t := by
  obtain ⟨pieces, inHand, hpieces, haccepted, hhand⟩ := h.split
  rw [onPoll] at hstep
  split at hstep
  next first rest hsender hqueue =>
    rw [hsender] at hhand
    obtain rfl : inHand = [] := hhand
    rw [hqueue, append_nil] at haccepted
    have hping : ∀ p ∈ rest, p.getD 4 0 ≠ cmdPing := fun p hp =>
      h.no_ping p (by rw [hqueue]; exact mem_cons_of_mem first hp)
    split at hstep
    next hmotion =>
      obtain rfl := some.inj hstep
      have hall : ∀ p ∈ [first], IsMotion p := fun p hp => by rwa [mem_singleton.1 hp]
      have hclamped : ∀ offset, readInt16Le first offset = clampedSum offset [first] := by
        intro offset
        have hlo := Int16.le_toInt (LittleEndian.int16At first offset)
        have hhi := Int16.toInt_lt (LittleEndian.int16At first offset)
        rw [clampedSum, foldl_cons, foldl_nil, Int.zero_add]
        rw [readInt16Le]
        exact (coerceIn_eq hlo (by omega)).symm
      exact ⟨h.idle, hping, pieces, [first], hpieces, by rw [haccepted]; simp,
        cons_ne_nil _ _, hall, hclamped 6, hclamped 8⟩
    next hmotion =>
      obtain rfl := some.inj hstep
      refine ⟨h.idle, hping, pieces, [first], hpieces, by rw [haccepted]; simp, .same hmotion, ?_⟩
      exact h.no_ping first (by rw [hqueue]; exact mem_cons_self)
  next hsender hqueue =>
    rw [hsender] at hhand
    obtain rfl := some.inj hstep
    exact ⟨h.idle, h.no_ping, pieces, inHand, hpieces, haccepted, hhand⟩
  · cases hstep

theorem merging_peek (h : Merging s) (hstep : s.onPeek = some t) : Merging t := by
  obtain ⟨pieces, inHand, hpieces, haccepted, hhand⟩ := h.split
  rw [onPeek] at hstep
  split at hstep
  next sumDx sumDy hsender =>
    rw [hsender] at hhand
    obtain ⟨hne, hmotions, rfl, rfl⟩ := hhand
    have hsend : InHand (.sending (encodeMouseRel (clampedSum 6 inHand) (clampedSum 8 inHand)))
        inHand s.queue := ⟨standsFor_encodeMouseRel hne hmotions, by
      rw [encodeMouseRel, encodeCommand_cmd]
      decide⟩
    split at hstep
    next peek rest hqueue =>
      split at hstep
      next hmotion =>
        obtain rfl := some.inj hstep
        exact ⟨h.idle, h.no_ping, pieces, inHand, hpieces, haccepted, hne, hmotions, rfl, rfl,
          hmotion, by rw [hqueue]; rfl⟩
      next =>
        obtain rfl := some.inj hstep
        exact ⟨h.idle, h.no_ping, pieces, inHand, hpieces, haccepted, hsend⟩
    next =>
      obtain rfl := some.inj hstep
      exact ⟨h.idle, h.no_ping, pieces, inHand, hpieces, haccepted, hsend⟩
  · cases hstep

/-- One more motion is merged: the one that was peeked, because no call evicts it. -/
theorem merging_pollMerged (h : Merging s) (hstep : s.onPollMerged = some t) : Merging t := by
  obtain ⟨pieces, inHand, hpieces, haccepted, hhand⟩ := h.split
  rw [onPollMerged] at hstep
  split at hstep
  next peek sumDx sumDy hsender =>
    rw [hsender] at hhand
    obtain ⟨hne, hmotions, rfl, rfl, hpeek, hhead⟩ := hhand
    obtain ⟨rest, hqueue⟩ := head?_eq_some_iff.1 hhead
    obtain rfl := some.inj hstep
    refine ⟨h.idle, fun p hp => h.no_ping p (mem_of_mem_tail hp), pieces, inHand ++ [peek],
      hpieces, ?_, ?_, ?_, ?_, ?_⟩
    · rw [haccepted, hqueue]
      simp
    · simp
    · intro p hp
      rcases mem_append.1 hp with hp | hp
      · exact hmotions p hp
      · rwa [mem_singleton.1 hp]
    · exact (clampedSum_concat 6 inHand peek).symm
    · exact (clampedSum_concat 8 inHand peek).symm
  · cases hstep

theorem merging_send (h : Merging s) (hstep : s.onSend = some t) : Merging t := by
  obtain ⟨pieces, inHand, hpieces, haccepted, hhand⟩ := h.split
  rw [onSend] at hstep
  split at hstep
  next toSend hsender =>
    rw [hsender] at hhand
    obtain ⟨hstands, hping⟩ := hhand
    obtain rfl := some.inj hstep
    refine ⟨h.idle, h.no_ping, pieces ++ [inHand], [], ?_, ?_, rfl⟩
    · rw [datagrams, filter_append, filter_singleton, decide_eq_true hping]
      exact rel_append hpieces (List.Forall₂.cons hstands List.Forall₂.nil)
    · dsimp only
      rw [haccepted]
      simp
  · cases hstep

theorem merging_pingCheck {pingDue : Bool} (h : Merging s)
    (hstep : s.onPingCheck pingDue = some t) : Merging t := by
  obtain ⟨pieces, inHand, hpieces, haccepted, hhand⟩ := h.split
  rw [onPingCheck] at hstep
  split at hstep
  next hsender =>
    rw [hsender] at hhand
    obtain rfl : inHand = [] := hhand
    split at hstep
    · obtain rfl := some.inj hstep
      refine ⟨h.idle, h.no_ping, pieces, [], ?_, haccepted, rfl⟩
      have hping : (List.filter (fun p => decide (p.getD 4 0 ≠ cmdPing)) [encodePing]) = [] := rfl
      rw [datagrams, filter_append, hping, append_nil]
      exact hpieces
    · obtain rfl := some.inj hstep
      exact ⟨h.idle, h.no_ping, pieces, [], hpieces, haccepted, rfl⟩
  · cases hstep

/-- **One step** of a call or of the sender. -/
theorem merging_step (s : RawInputBridge) (a : BridgeLabel) (t : RawInputBridge) (h : Merging s)
    (hstep : s.step a = some t) (hroom : s.NoOverflow a t) : Merging t := by
  have hidle := h.idle
  cases a with
  | call c => exact merging_call h (hroom c rfl) hstep
  | evict =>
    rw [step, onEvict, hidle] at hstep
    cases hstep
  | offerAgain =>
    rw [step, onOfferAgain, hidle] at hstep
    cases hstep
  | poll => exact merging_poll h hstep
  | peek => exact merging_peek h hstep
  | pollMerged => exact merging_pollMerged h hstep
  | send => exact merging_send h hstep
  | pingCheck pingDue => exact merging_pingCheck h hstep

theorem merging_initial : Merging {} :=
  ⟨rfl, fun _ h => absurd h not_mem_nil, [], [], List.Forall₂.nil, rfl, rfl⟩

theorem Merging.coalesced (h : Merging s) : s.Coalesced := by
  obtain ⟨pieces, inHand, hpieces, haccepted, hhand⟩ := h.split
  refine ⟨pieces, inHand, hpieces, haccepted, fun hsender => ?_⟩
  rw [hsender] at hhand
  exact hhand

/-- **What is sent.**  In every run of calls and sender steps, in any interleaving, in which the
queue does not overflow, the packets sent stand for the packets accepted, in order. -/
theorem coalesced_of_noOverflow (as : List BridgeLabel) (h : EveryStep step NoOverflow {} as) :
    EveryState step Coalesced {} as :=
  everyState_of_everyStep merging_step (fun _ => Merging.coalesced) merging_initial h

/-- Two motions are accepted and sent as one, then a key. -/
def mergeRun : List BridgeLabel :=
  [.call (.mouseRel 3 4), .call (.mouseRel 5 (-6)), .call (.keyVk 0x57 true 0x11), .poll, .peek,
    .pollMerged, .peek, .send, .pingCheck true, .poll, .send]

theorem coalesced_of_noOverflow_merge : EveryState step Coalesced {} mergeRun :=
  coalesced_of_noOverflow mergeRun (by decide)

/-- Two motions by the largest step. -/
def clampRun : List BridgeLabel :=
  [.call (.mouseRel 32767 0), .call (.mouseRel 32767 0), .poll, .peek, .pollMerged, .peek, .send]

/-- **A sum that is clamped loses motion**: of two steps by 32767 one is left. -/
theorem clamped_motion_lost : ∃ s, run step {} clampRun = some s ∧ s.queue = [] ∧
    motionSum 6 s.accepted = 65534 ∧ s.datagrams.length = 1 ∧ motionSum 6 s.datagrams = 32767 := by
  refine ⟨_, rfl, ?_⟩
  decide

end RawInputBridge
