/-
# Raw game input: no key stays pressed

A queue that drops its oldest packet may drop a release.  `LosesRelease` says when a
step does harm: it takes a release out of the queue without sending it, the last
event of that control that the sender has sent is its press, and no later event of
that control is on its way.
-/
import XyDeskRemote.RawInputQueue

open LabelledRun List Option

/-- Packets a call in progress has still to put into the queue. -/
def ProducerPc.packets : ProducerPc → List Packet
  | idle => []
  | full packet => [packet]
  | evicted packet => [packet]

/-- Packets the sender holds, apart from motion that it is merging. -/
def SenderPc.packets : SenderPc → List Packet
  | sending toSend => [toSend]
  | _ => []

namespace RawInputBridge

/-- What is sent or about to be sent by the sender. -/
def ahead (s : RawInputBridge) : List Packet := s.sent ++ s.sender.packets

/-- What is in the queue or about to enter it. -/
def waiting (s : RawInputBridge) : List Packet := s.queue ++ s.producer.packets

/-- Nothing is on its way any more. -/
def Drained (s : RawInputBridge) : Prop :=
  s.queue = [] ∧ s.producer = .idle ∧ s.sender = .polling

instance (s : RawInputBridge) : Decidable s.Drained :=
  inferInstanceAs (Decidable (_ ∧ _ ∧ _))

/-- **No control is stuck**: once everything has drained, every control whose last
accepted event is a release has been released after every press of it that was sent. -/
def Released (s : RawInputBridge) : Prop :=
  s.Drained → ∀ k, (events k s.accepted).getLast? = some false → ReleasedAfterPress k s.sent

/-! ## Steps that lose a packet -/

/-- The packet a step takes out of the queue without handing it to the sender. -/
def takenAway (s : RawInputBridge) : BridgeLabel → Option Packet
  | .evict => s.queue.head?
  | .pollMerged => s.queue.head?
  | _ => none

/-- The step takes away a release of `k` that is still needed: the last event of `k`
ahead of it is a press, and no event of `k` is behind it. -/
def LosesRelease (s : RawInputBridge) (a : BridgeLabel) (k : Control) : Prop :=
  ∃ p, s.takenAway a = some p ∧ eventOf k p = some false ∧
    (events k s.ahead).getLast? = some true ∧
    events k (s.queue.tail ++ s.producer.packets) = []

/-- The step loses no release that is still needed. -/
def NoLoss (s : RawInputBridge) (a : BridgeLabel) (_ : RawInputBridge) : Prop :=
  ∀ k, ¬ s.LosesRelease a k

/-! ## The invariant -/

/-- A control whose last accepted event is a release is not pressed by the last event
sent or on its way. -/
def NotStuck (s : RawInputBridge) : Prop :=
  ∀ k, (events k s.accepted).getLast? = some false →
    (events k (s.ahead ++ s.waiting)).getLast? ≠ some true

/-- The invariant: no control is stuck, and a call that has made room finds it. -/
structure OnTheWay (s : RawInputBridge) : Prop where
  released : s.NotStuck
  room : ∀ p, s.producer = .evicted p → s.queue.length < queueCapacity
  capacity : s.queue.length ≤ queueCapacity

variable {s t : RawInputBridge}

/-- Moving packets along without changing the events. -/
theorem NotStuck.of_events (h : s.NotStuck) (hacc : t.accepted = s.accepted)
    (hall : ∀ k, events k (t.ahead ++ t.waiting) = events k (s.ahead ++ s.waiting)) :
    t.NotStuck := by
  intro k hlast
  rw [hall k]
  exact h k (hacc ▸ hlast)

/-- Accepting a packet appends it to both sides. -/
theorem NotStuck.of_accept (h : s.NotStuck) {p : Packet} (hacc : t.accepted = s.accepted ++ [p])
    (hall : t.ahead ++ t.waiting = s.ahead ++ s.waiting ++ [p]) : t.NotStuck := by
  intro k hlast
  rw [hacc, events_append] at hlast
  rw [hall, events_append]
  cases hp : eventOf k p with
  | none =>
    -- the packet is no event of `k`: neither side changes
    have hnil : events k [p] = [] := by rw [events_cons, hp]; rfl
    rw [hnil, append_nil] at hlast ⊢
    exact h k hlast
  | some down =>
    -- the packet is now the last event of `k` on both sides
    have hone : events k [p] = [down] := by rw [events_cons, hp]; rfl
    rw [hone, getLast?_append] at hlast ⊢
    have hdown : some down = some false := hlast
    obtain rfl := some.inj hdown
    exact nofun

theorem NotStuck.of_takeAway (h : s.NotStuck) {a : BridgeLabel} {p : Packet}
    (htaken : s.takenAway a = some p) (hno : ∀ k, ¬ s.LosesRelease a k)
    (hqueue : s.queue = p :: s.queue.tail) (hacc : t.accepted = s.accepted)
    (hall : t.ahead ++ t.waiting = s.ahead ++ (s.queue.tail ++ s.producer.packets)) :
    t.NotStuck := by
  intro k hlast
  rw [hacc] at hlast
  have hold := h k hlast
  have hwaiting : s.waiting = p :: (s.queue.tail ++ s.producer.packets) := by
    rw [waiting, hqueue]
    rfl
  rw [hwaiting, events_append, events_cons] at hold
  rw [hall, events_append]
  rcases eq_nil_or_concat (events k (s.queue.tail ++ s.producer.packets)) with
    hrest | ⟨front, last, hrest⟩
  · -- nothing of `k` is behind: what is ahead decides
    rw [hrest, append_nil] at hold ⊢
    cases hp : eventOf k p with
    | none =>
      rw [hp] at hold
      simpa using hold
    | some down =>
      rw [hp, getLast?_append] at hold
      cases down with
      | true => exact absurd rfl hold
      | false => exact fun hpress => hno k ⟨p, htaken, hp, hpress, hrest⟩
  · -- the last event of `k` is behind and stays
    rw [hrest, concat_eq_append] at hold ⊢
    rw [← append_assoc, ← append_assoc, getLast?_append] at hold
    rw [← append_assoc, getLast?_append]
    exact hold

/-! ## Every step keeps the invariant -/

theorem onTheWay_call {c : RawCommand} (h : OnTheWay s) (hstep : s.onCall c = some t) :
    OnTheWay t := by
  unfold onCall at hstep
  split at hstep
  · next packet hidle hpacket =>
      dsimp only at hstep
      split at hstep
      · -- the first `offer` finds room
        next hroom =>
          obtain rfl := some.inj hstep
          refine ⟨h.released.of_accept rfl ?_, ?_, ?_⟩
          · show s.ahead ++ (s.queue ++ [packet] ++ s.producer.packets) = _
            rw [waiting, hidle]
            simp [ProducerPc.packets]
          · intro p hp
            rw [hidle] at hp
            cases hp
          · show (s.queue ++ [packet]).length ≤ queueCapacity
            rw [length_append, length_singleton]
            omega
      · obtain rfl := some.inj hstep
        refine ⟨h.released.of_accept rfl ?_, ?_, h.capacity⟩
        · show s.ahead ++ (s.queue ++ [packet]) = _
          rw [waiting, hidle]
          simp [ProducerPc.packets]
        · intro p hp
          cases hp
  · cases hstep

/-- The two steps that take a packet away, told apart by what they leave behind. -/
theorem onTheWay_takeAway {a : BridgeLabel} (h : OnTheWay s) (hno : ∀ k, ¬ s.LosesRelease a k)
    (htaken : s.takenAway a = s.queue.head?) (hacc : t.accepted = s.accepted)
    (hqueue : t.queue = s.queue.tail) (hpackets : t.producer.packets = s.producer.packets)
    (hahead : t.ahead = s.ahead) (hroom : ∀ p, t.producer = .evicted p →
      s.producer = .evicted p ∨ s.producer = .full p) : OnTheWay t := by
  have hcap := h.capacity
  have hall : t.ahead ++ t.waiting = s.ahead ++ (s.queue.tail ++ s.producer.packets) := by
    rw [hahead, waiting, hqueue, hpackets]
  refine ⟨?_, ?_, ?_⟩
  · cases hs : s.queue with
    | nil =>
      rw [hs, tail_nil, ← hs] at hall
      exact h.released.of_events hacc fun k => congrArg (events k) hall
    | cons p rest =>
      refine h.released.of_takeAway (p := p) ?_ hno ?_ hacc hall
      · rw [htaken, hs, head?_cons]
      · rw [hs, tail_cons]
  · intro p hp
    rw [hqueue, length_tail]
    -- either the room was there before, or this poll has just made it
    rcases hroom p hp with hev | hfull
    · have := h.room p hev
      omega
    · unfold queueCapacity at hcap ⊢
      omega
  · rw [hqueue, length_tail]
    omega

theorem onTheWay_evict (h : OnTheWay s) (hno : ∀ k, ¬ s.LosesRelease .evict k)
    (hstep : s.onEvict = some t) : OnTheWay t := by
  unfold onEvict at hstep
  split at hstep
  · next packet hfull =>
      obtain rfl := some.inj hstep
      refine onTheWay_takeAway h hno rfl rfl rfl ?_ rfl ?_
      · rw [hfull]
        rfl
      · intro p hp
        cases hp
        exact Or.inr hfull
  · cases hstep

theorem onTheWay_offerAgain (h : OnTheWay s) (hstep : s.onOfferAgain = some t) : OnTheWay t := by
  unfold onOfferAgain at hstep
  split at hstep
  · next packet hevicted =>
      -- nobody else offers, so the room made by the poll is still there
      have hroom := h.room packet hevicted
      rw [if_pos hroom] at hstep
      obtain rfl := some.inj hstep
      refine ⟨h.released.of_events rfl fun k => congrArg (events k) ?_, ?_, ?_⟩
      · show s.ahead ++ (s.queue ++ [packet] ++ []) = s.ahead ++ s.waiting
        rw [waiting, hevicted, append_nil]
        rfl
      · intro p hp
        cases hp
      · show (s.queue ++ [packet]).length ≤ queueCapacity
        rw [length_append, length_singleton]
        omega
  · cases hstep

theorem onTheWay_poll (h : OnTheWay s) (hstep : s.onPoll = some t) :
    OnTheWay t := by
  have hcap := h.capacity
  unfold onPoll at hstep
  split at hstep
  · next first rest hsender hqueue =>
      rw [hqueue, length_cons] at hcap
      have hroom : ∀ p, s.producer = .evicted p → rest.length < queueCapacity := by
        intro p hp
        have := h.room p hp
        rw [hqueue, length_cons] at this
        omega
      -- the sender is polling, so it holds nothing
      have hahead : s.ahead = s.sent := by
        rw [ahead, hsender]
        exact append_nil _
      split at hstep
      · -- relative motion goes into the sum, and is no event of any control
        next hrel =>
          obtain rfl := some.inj hstep
          refine ⟨h.released.of_events rfl fun k => ?_, hroom, ?_⟩
          · show events k (s.sent ++ [] ++ (rest ++ s.producer.packets)) = _
            rw [waiting, hqueue, hahead, append_nil, events_append, events_append k s.sent,
              cons_append, events_cons, eventOf_rel hrel]
            rfl
          · show rest.length ≤ queueCapacity
            omega
      · obtain rfl := some.inj hstep
        refine ⟨h.released.of_events rfl fun k => congrArg (events k) ?_, hroom, ?_⟩
        · show s.sent ++ [first] ++ (rest ++ s.producer.packets) = _
          rw [waiting, hqueue, hahead, append_assoc]
          rfl
        · show rest.length ≤ queueCapacity
          omega
  · next hsender hqueue =>
      obtain rfl := some.inj hstep
      refine ⟨h.released.of_events rfl fun k => congrArg (events k) ?_, h.room,
        h.capacity⟩
      show s.sent ++ [] ++ s.waiting = s.ahead ++ s.waiting
      rw [ahead, hsender]
      rfl
  · cases hstep

theorem onTheWay_sender (h : OnTheWay s) (hacc : t.accepted = s.accepted)
    (hqueue : t.queue = s.queue) (hproducer : t.producer = s.producer)
    (hahead : ∀ k, events k t.ahead = events k s.ahead) : OnTheWay t := by
  refine ⟨h.released.of_events hacc fun k => ?_, ?_, ?_⟩
  · rw [events_append, events_append, hahead k, waiting, waiting, hqueue, hproducer]
  · rw [hproducer, hqueue]
    exact h.room
  · rw [hqueue]
    exact h.capacity

/-- The sum of merged motion presses and releases nothing. -/
theorem events_ahead_merged {sumDx sumDy : Int} (hsender : s.sender = .merging sumDx sumDy)
    (k : Control) :
    events k (s.sent ++ [encodeMouseRel sumDx sumDy]) = events k s.ahead := by
  rw [ahead, hsender, events_append, events_append, events_cons, eventOf_encodeMouseRel]
  rfl

theorem onTheWay_peek (h : OnTheWay s) (hstep : s.onPeek = some t) :
    OnTheWay t := by
  unfold onPeek at hstep
  split at hstep
  · next sumDx sumDy hsender =>
      split at hstep
      · split at hstep
        · obtain rfl := some.inj hstep
          refine onTheWay_sender h rfl rfl rfl fun k => ?_
          rw [ahead, ahead, hsender]
          rfl
        · obtain rfl := some.inj hstep
          exact onTheWay_sender h rfl rfl rfl (events_ahead_merged hsender)
      · obtain rfl := some.inj hstep
        exact onTheWay_sender h rfl rfl rfl (events_ahead_merged hsender)
  · cases hstep

theorem onTheWay_pollMerged (h : OnTheWay s) (hno : ∀ k, ¬ s.LosesRelease .pollMerged k)
    (hstep : s.onPollMerged = some t) :
    OnTheWay t := by
  unfold onPollMerged at hstep
  split at hstep
  · next peek sumDx sumDy hsender =>
      obtain rfl := some.inj hstep
      refine onTheWay_takeAway h hno rfl rfl rfl rfl ?_ fun p hp => Or.inl hp
      rw [ahead, ahead, hsender]
      rfl
  · cases hstep

theorem onTheWay_send (h : OnTheWay s) (hstep : s.onSend = some t) :
    OnTheWay t := by
  unfold onSend at hstep
  split at hstep
  · next toSend hsender =>
      obtain rfl := some.inj hstep
      refine onTheWay_sender h rfl rfl rfl fun k => congrArg (events k) ?_
      rw [ahead, ahead, hsender]
      exact append_nil _
  · cases hstep

theorem onTheWay_pingCheck (h : OnTheWay s) {pingDue : Bool}
    (hstep : s.onPingCheck pingDue = some t) : OnTheWay t := by
  unfold onPingCheck at hstep
  split at hstep
  · next hsender =>
      split at hstep
      · obtain rfl := some.inj hstep
        refine onTheWay_sender h rfl rfl rfl fun k => ?_
        show events k (s.sent ++ [encodePing] ++ []) = _
        rw [ahead, hsender, append_nil, events_append, events_append, events_cons,
          eventOf_encodePing]
        rfl
      · obtain rfl := some.inj hstep
        refine onTheWay_sender h rfl rfl rfl fun k => ?_
        rw [ahead, ahead, hsender]
        rfl
  · cases hstep

/-- **One step.**  A step that loses no release that is still needed keeps the
invariant. -/
theorem onTheWay_step (s : RawInputBridge) (a : BridgeLabel) (t : RawInputBridge)
    (h : OnTheWay s) (hstep : s.step a = some t) (hno : s.NoLoss a t) : OnTheWay t := by
  cases a with
  | call c => exact onTheWay_call h hstep
  | evict => exact onTheWay_evict h hno hstep
  | offerAgain => exact onTheWay_offerAgain h hstep
  | poll => exact onTheWay_poll h hstep
  | peek => exact onTheWay_peek h hstep
  | pollMerged => exact onTheWay_pollMerged h hno hstep
  | send => exact onTheWay_send h hstep
  | pingCheck pingDue => exact onTheWay_pingCheck h hstep

theorem onTheWay_initial : OnTheWay {} := by
  refine ⟨?_, ?_, Nat.zero_le _⟩
  · intro k hlast
    cases hlast
  · intro p hp
    cases hp

/-- When nothing is on its way, the invariant is about what was sent. -/
theorem OnTheWay.no_stuck (h : OnTheWay s) : s.Released := by
  rintro ⟨hqueue, hproducer, hsender⟩ k hlast
  have hsent : s.ahead ++ s.waiting = s.sent := by
    rw [ahead, waiting, hqueue, hproducer, hsender]
    simp [SenderPc.packets, ProducerPc.packets]
  rw [releasedAfterPress_iff, ← hsent]
  exact h.released k hlast

/-- **When no control gets stuck.**  In every run of calls and sender steps, in any
interleaving, of which no step loses a release that is still needed: whenever
everything has drained, a control whose last accepted event is a release has been
released after every press of it that was sent. -/
theorem released_of_noLoss (as : List BridgeLabel) (h : EveryStep step NoLoss {} as) :
    EveryState step Released {} as :=
  everyState_of_everyStep onTheWay_step (fun _ => OnTheWay.no_stuck) onTheWay_initial h

/-! ## Overflows -/

/-- A step loses nothing when what it takes away releases nothing. -/
theorem noLoss_of_taken {s t : RawInputBridge} {a : BridgeLabel}
    (h : ∀ p, s.takenAway a = some p → ∀ k, eventOf k p ≠ some false) : NoLoss s a t := by
  rintro k ⟨p, htaken, hrelease, -⟩
  exact h p htaken k hrelease

/-- A run in which the queue never overflows and nothing is merged loses nothing. -/
theorem everyStep_noLoss {as : List BridgeLabel}
    (has : ∀ a ∈ as, a ≠ .evict ∧ a ≠ .pollMerged) (s : RawInputBridge) :
    EveryStep step NoLoss s as := by
  induction as generalizing s with
  | nil => trivial
  | cons a as ih =>
    obtain ⟨hevict, hmerged⟩ := has a mem_cons_self
    have hrest : ∀ b ∈ as, b ≠ .evict ∧ b ≠ .pollMerged :=
      fun b hb => has b (mem_cons_of_mem a hb)
    refine fun t _ => ⟨noLoss_of_taken fun p htaken => ?_, ih hrest t⟩
    cases a with
    | evict => exact absurd rfl hevict
    | pollMerged => exact absurd rfl hmerged
    | _ => cases htaken

/-- One round of the sender for a packet that is not relative motion. -/
def sendRound : List BridgeLabel := [.poll, .send, .pingCheck false]

theorem run_calls {c : RawCommand} {packet : Packet} (hc : c.sendPacket = some packet)
    (sender : SenderPc) (sent : List Packet) (n : Nat) :
    ∀ queue accepted : List Packet, queue.length + n ≤ queueCapacity →
      run step ⟨queue, .idle, sender, accepted, sent⟩ (replicate n (.call c)) =
        some ⟨queue ++ replicate n packet, .idle, sender,
          accepted ++ replicate n packet, sent⟩ := by
  induction n with
  | zero =>
    intro queue accepted _
    rw [replicate_zero, replicate_zero, append_nil, append_nil]
    rfl
  | succ n ih =>
    intro queue accepted hroom
    have hcall : step ⟨queue, .idle, sender, accepted, sent⟩ (.call c) =
        some ⟨queue ++ [packet], .idle, sender, accepted ++ [packet], sent⟩ := by
      show onCall _ c = _
      unfold onCall
      rw [hc]
      exact if_pos (by show queue.length < queueCapacity; omega)
    have hlen : (queue ++ [packet]).length + n ≤ queueCapacity := by
      rw [length_append, length_singleton]
      omega
    rw [replicate_succ, run_cons, hcall, bind_some, ih _ _ hlen,
      replicate_succ, append_assoc, append_assoc]
    rfl

/-- The sender empties a queue without relative motion, packet by packet. -/
theorem run_sendRounds (producer : ProducerPc) (accepted : List Packet) (queue : List Packet)
    (hmotion : ∀ p ∈ queue, p.getD 4 0 ≠ cmdMouseRel) :
    ∀ sent : List Packet,
      run step ⟨queue, producer, .polling, accepted, sent⟩
          (replicate queue.length sendRound).flatten =
        some ⟨[], producer, .polling, accepted, sent ++ queue⟩ := by
  induction queue with
  | nil =>
    intro sent
    rw [append_nil]
    rfl
  | cons p rest ih =>
    intro sent
    have hpoll : step ⟨p :: rest, producer, .polling, accepted, sent⟩ .poll =
        some ⟨rest, producer, .sending p, accepted, sent⟩ :=
      if_neg (hmotion p mem_cons_self)
    have hround : run step ⟨p :: rest, producer, .polling, accepted, sent⟩ sendRound =
        some ⟨rest, producer, .polling, accepted, sent ++ [p]⟩ := by
      rw [sendRound, run_cons, hpoll]
      rfl
    rw [length_cons, replicate_succ, flatten_cons, run_append, hround,
      bind_some, ih fun q hq => hmotion q (mem_cons_of_mem p hq),
      append_assoc]
    rfl

/-- A call on a full queue waits for room. -/
theorem step_call_full {c : RawCommand} {packet : Packet} {queue : List Packet}
    (hc : c.sendPacket = some packet) (hfull : queue.length = queueCapacity)
    (sender : SenderPc) (accepted sent : List Packet) :
    step ⟨queue, .idle, sender, accepted, sent⟩ (.call c) =
      some ⟨queue, .full packet, sender, accepted ++ [packet], sent⟩ := by
  show onCall _ c = _
  unfold onCall
  rw [hc]
  exact if_neg (by show ¬ queue.length < queueCapacity; omega)

/-- A call that is accepted while the queue is full takes the place of the oldest packet. -/
theorem run_overflow {c : RawCommand} {packet oldest : Packet} {rest : List Packet}
    (hc : c.sendPacket = some packet) (hfull : (oldest :: rest).length = queueCapacity)
    (sender : SenderPc) (accepted sent : List Packet) :
    run step ⟨oldest :: rest, .idle, sender, accepted, sent⟩ [.call c, .evict, .offerAgain] =
      some ⟨rest ++ [packet], .idle, sender, accepted ++ [packet], sent⟩ := by
  have hagain : step ⟨rest, .evicted packet, sender, accepted ++ [packet], sent⟩ .offerAgain =
      some ⟨rest ++ [packet], .idle, sender, accepted ++ [packet], sent⟩ := by
    rw [length_cons] at hfull
    exact if_pos (by show rest.length < queueCapacity; omega)
  rw [run_cons, step_call_full hc hfull, bind_some, run_cons]
  show (step ⟨rest, .evicted packet, sender, accepted ++ [packet], sent⟩ .offerAgain).bind _ = _
  rw [hagain]
  rfl

/-- An overflow loses nothing when the oldest packet releases nothing. -/
theorem everyStep_overflow {c : RawCommand} {packet oldest : Packet} {rest : List Packet}
    (hc : c.sendPacket = some packet) (hfull : (oldest :: rest).length = queueCapacity)
    (holdest : ∀ k, eventOf k oldest ≠ some false) (sender : SenderPc)
    (accepted sent : List Packet) :
    EveryStep step NoLoss ⟨oldest :: rest, .idle, sender, accepted, sent⟩
      [.call c, .evict, .offerAgain] := by
  refine EveryStep.cons (step_call_full hc hfull sender accepted sent)
    (noLoss_of_taken fun p htaken => nomatch htaken) fun t _ => ⟨noLoss_of_taken ?_, ?_⟩
  · intro p htaken
    obtain rfl := some.inj htaken
    exact holdest
  · exact everyStep_noLoss (by simp) t

theorem eventOf_motion (k : Control) : eventOf k (encodeMouseAbs 1 1) = none :=
  eventOf_of_cmd (by decide) (by decide) k

/-- Motions fill the queue, then `W` is pressed and released, and both take the place of a
motion. -/
def motionOverflowRun : List BridgeLabel :=
  replicate 512 (.call (.mouseAbs 1 1)) ++
    ([.call (.keyVk 0x57 true 0x11), .evict, .offerAgain] ++
      ([.call (.keyVk 0x57 false 0x11), .evict, .offerAgain] ++
        (replicate 512 sendRound).flatten))

/-- Overflows that evict motions lose nothing: the key is released. -/
theorem released_of_noLoss_overflow : EveryState step Released {} motionOverflowRun := by
  apply released_of_noLoss
  let motion := encodeMouseAbs 1 1
  have hmotion : ∀ k, eventOf k motion ≠ some false := fun k => by
    rw [eventOf_motion]
    exact nofun
  have hlen : ∀ ps : List Packet, (motion :: (replicate 510 motion ++ ps)).length =
      511 + ps.length := by
    intro ps
    rw [length_cons, length_append, length_replicate]
    omega
  have hfill : run step {} (replicate 512 (.call (.mouseAbs 1 1))) =
      some ⟨motion :: (replicate 510 motion ++ [motion]), .idle, .polling,
        replicate 512 motion, []⟩ := by
    rw [← replicate_succ', ← replicate_succ]
    exact run_calls rfl .polling [] 512 [] [] (by decide)
  have hcalls : ∀ a ∈ replicate 512 (BridgeLabel.call (.mouseAbs 1 1)),
      a ≠ .evict ∧ a ≠ .pollMerged := fun a ha => by
    rw [(mem_replicate.1 ha).2]
    decide
  have hrounds : ∀ a ∈ (replicate 512 sendRound).flatten, a ≠ .evict ∧ a ≠ .pollMerged := by
    intro a ha
    obtain ⟨round, hround, ha⟩ := mem_flatten.1 ha
    rw [(mem_replicate.1 hround).2] at ha
    exact (by decide : ∀ a ∈ sendRound, a ≠ .evict ∧ a ≠ .pollMerged) a ha
  refine (everyStep_noLoss hcalls _).append hfill ?_
  refine (everyStep_overflow rfl (hlen [motion]) hmotion _ _ _).append
    (run_overflow rfl (hlen [motion]) _ _ _) ?_
  rw [← replicate_succ', replicate_succ, cons_append]
  exact (everyStep_overflow rfl (hlen [_]) hmotion _ _ _).append
    (run_overflow rfl (hlen [_]) _ _ _) (everyStep_noLoss hrounds _)

/-! ## An overflow that loses a release -/

/-- `W` is pressed and the press is sent; then `W` is released while the sender does
not run, 512 absolute motions follow, and the sender drains the queue. -/
def overflowRun : List BridgeLabel :=
  ([.call (.keyVk 0x57 true 0x11)] ++ sendRound ++ [.call (.keyVk 0x57 false 0x11)]) ++
    (replicate 511 (.call (.mouseAbs 1 1)) ++
      ([.call (.mouseAbs 1 1), .evict, .offerAgain] ++
        (replicate 512 sendRound).flatten))

theorem events_replicate_motion (k : Control) (n : Nat) :
    events k (replicate n (encodeMouseAbs 1 1)) = [] := by
  exact filterMap_replicate_of_none (eventOf_motion k)

/-- **The last motion evicts the release.**  All calls were accepted, everything has
drained, the last accepted event of `W` is its release, and the only event of `W` that
was sent is its press. -/
theorem overflow_loses_release :
    ∃ s, run step {} overflowRun = some s ∧ s.Drained ∧
      (events (.key 0x57) s.accepted).getLast? = some false ∧
      events (.key 0x57) s.sent = [true] ∧ ¬ s.Released := by
  let press := encodeKeyVk 0x57 true 0x11
  let release := encodeKeyVk 0x57 false 0x11
  let motions := replicate 511 (encodeMouseAbs 1 1)
  let motion := encodeMouseAbs 1 1
  have hmotion : (RawCommand.mouseAbs 1 1).sendPacket = some motion := rfl
  have hmotions : motions.length = 511 := length_replicate
  -- the tap: the press is sent, the release stays in the queue
  have htap : run step {}
      ([.call (.keyVk 0x57 true 0x11)] ++ sendRound ++ [.call (.keyVk 0x57 false 0x11)]) =
      some ⟨[release], .idle, .polling, [press, release], [press]⟩ := rfl
  have hfill : run step ⟨[release], .idle, .polling, [press, release], [press]⟩
      (replicate 511 (.call (.mouseAbs 1 1))) =
      some ⟨release :: motions, .idle, .polling, [press, release] ++ motions, [press]⟩ :=
    run_calls hmotion .polling [press] 511 [release] [press, release] (by decide)
  -- the queue is full, and the release is its oldest packet
  have hover : run step
      ⟨release :: motions, .idle, .polling, [press, release] ++ motions, [press]⟩
      [.call (.mouseAbs 1 1), .evict, .offerAgain] =
      some ⟨motions ++ [motion], .idle, .polling,
        [press, release] ++ motions ++ [motion], [press]⟩ :=
    run_overflow hmotion (by rw [length_cons, hmotions]; rfl) .polling _ [press]
  have hlen : (motions ++ [motion]).length = 512 := by
    rw [length_append, hmotions]
    rfl
  have hdrain : run step
      ⟨motions ++ [motion], .idle, .polling, [press, release] ++ motions ++ [motion], [press]⟩
      (replicate 512 sendRound).flatten =
      some ⟨[], .idle, .polling, [press, release] ++ motions ++ [motion],
        [press] ++ (motions ++ [motion])⟩ := by
    rw [← hlen]
    apply run_sendRounds
    intro p hp
    rcases mem_append.1 hp with hp | hp
    · rw [(mem_replicate.1 hp).2]
      decide
    · rw [mem_singleton.1 hp]
      decide
  have hnone : events (.key 0x57) motions = [] := events_replicate_motion _ 511
  have haccepted : (events (.key 0x57) ([press, release] ++ motions ++ [motion])).getLast? =
      some false := by
    rw [events_append, events_append, hnone]
    rfl
  have hsent : events (.key 0x57) ([press] ++ (motions ++ [motion])) = [true] := by
    rw [events_append, events_append, hnone]
    rfl
  refine ⟨⟨[], .idle, .polling, [press, release] ++ motions ++ [motion],
    [press] ++ (motions ++ [motion])⟩, ?_, ⟨rfl, rfl, rfl⟩, haccepted, hsent, ?_⟩
  · rw [overflowRun, run_append, htap, bind_some, run_append, hfill, bind_some,
      run_append, hover, bind_some, hdrain]
  · intro hreleased
    refine releasedAfterPress_iff.1 (hreleased ⟨rfl, rfl, rfl⟩ (.key 0x57) haccepted) ?_
    show (events _ ([press] ++ (motions ++ [motion]))).getLast? = some true
    rw [hsent]
    rfl

end RawInputBridge
