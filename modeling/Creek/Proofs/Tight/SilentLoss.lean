import Creek.Proofs.Tight.CursorGuard
import Creek.Tight.Repair

/-! The packets that a report removes from the pending table of the sender: they have arrived, or have
been sent again as often as packets are, as long as the receiver loses track of none.
-/

namespace Creek.Tight

open Library Reassembler SequenceTracker

-- The sender

/-- A sender keeps a Data packet under this number and may send it again. -/
def Owed (sender : Peer) (seq : Nat) : Prop :=
  ∃ entry, sender.pending[seq]? = some entry ∧ entry.header.type = PacketType.data.code
    ∧ entry.retries < Report.kMaxRetries

/-- What sending a packet does to the record: nothing, or it gives out the next number, under which the
packet may be kept.
-/
def Draws (before after : Peer) : Prop :=
  after.sequenceOut = before.sequenceOut ∧ after.pending = before.pending
  ∨ after.sequenceOut = u32 (before.sequenceOut + 1)
    ∧ ∀ seq entry, after.pending[seq]? = some entry
      → before.pending[seq]? = some entry
        ∨ seq = u32 before.sequenceOut ∧ entry.header.sequence.toNat = seq
          ∧ entry.retries = (before.pending.getD seq {}).retries

namespace Link

variable {identity : Identity} {moment : Moment} {link : Link}

theorem draws_keepPending {header : PacketHeader} {payload : Bytes} {now : TimePoint} {bytes : Nat}
    {before : Peer} (number : header.sequence = UInt32.ofNat before.sequenceOut)
    (drawn : link.peer.sequenceOut = u32 (before.sequenceOut + 1))
    (same : link.peer.pending = before.pending)
    : Draws before (link.keepPending header payload now bytes).peer := by
  refine .inr ⟨drawn, ?_⟩
  intro seq entry stored
  have place : header.sequence.toNat = u32 before.sequenceOut := by
    rw [number]
    exact UInt32.toNat_ofNat'
  simp only [keepPending, Std.TreeMap.getElem?_insert, same] at stored
  split at stored
  · rename_i here
    obtain rfl := Nat.compare_eq_eq.mp here
    obtain rfl := Option.some.inj stored
    exact .inr ⟨place, rfl, rfl⟩
  · exact .inl stored

theorem sendDataPacket_draws (call : FragmentCall)
    : Draws link.peer (link.sendDataPacket identity moment call).peer := by
  unfold sendDataPacket
  dsimp only
  split
  · split
    · rw [sendWire_peer]
      exact draws_keepPending rfl rfl rfl
    · rw [sendWire_peer]
      exact .inr ⟨rfl, fun _ _ => .inl⟩
  · rw [sendWire_peer]
    exact .inl ⟨rfl, rfl⟩

theorem sendControl_draws (type : PacketType) (payload : Bytes)
    : Draws link.peer (link.sendControl identity moment type payload true).peer := by
  simp only [sendControl, if_true]
  refine draws_keepPending rfl ?_ ?_
  · rw [sendRaw_peer]
  · rw [sendRaw_peer]

end Link

-- A report at the sender

namespace Report

variable {pending : Std.TreeMap Nat PendingSend} {now : TimePoint} {seq : Nat} {entry : PendingSend}

/-- Counting a resend keeps the packets, and adds at most one to the retries of the packet. -/
theorem countResend_retries {other : Nat} (stored : (countResend now pending other)[seq]? = some entry)
    : ∃ old, pending[seq]? = some old ∧ entry.header = old.header ∧ old.retries ≤ entry.retries
      ∧ entry.retries ≤ old.retries + if other = seq then 1 else 0 := by
  have unchanged (same : pending[seq]? = some entry)
      : ∃ old, pending[seq]? = some old ∧ entry.header = old.header ∧ old.retries ≤ entry.retries
        ∧ entry.retries ≤ old.retries + if other = seq then 1 else 0 :=
    ⟨entry, same, rfl, Nat.le_refl _, Nat.le_add_right _ _⟩
  unfold countResend at stored
  split at stored
  · rename_i old found
    split at stored
    · rw [Std.TreeMap.getElem?_insert] at stored
      split at stored
      · rename_i here
        have same : other = seq := Nat.compare_eq_eq.mp here
        obtain rfl := Option.some.inj stored
        refine ⟨old, same ▸ found, rfl, Nat.le_succ _, ?_⟩
        rw [if_pos same]
      · exact unchanged stored
    · exact unchanged stored
  · exact unchanged stored

/-- Counting resends adds no more to the retries of a packet than there are resends of it. -/
theorem foldl_countResend_retries {resends : List (Nat × PendingSend)}
    (stored : (resends.foldl (fun pending entry => countResend now pending entry.1) pending)[seq]?
      = some entry)
    : ∃ old, pending[seq]? = some old ∧ entry.header = old.header ∧ old.retries ≤ entry.retries
      ∧ entry.retries ≤ old.retries + (resends.map Prod.fst).count seq := by
  induction resends generalizing pending with
  | nil => exact ⟨entry, stored, rfl, Nat.le_refl _, Nat.le_refl _⟩
  | cons first rest ih =>
      obtain ⟨middle, storedMiddle, header, more, bound⟩ := ih stored
      obtain ⟨old, storedBefore, headerBefore, moreBefore, boundBefore⟩ :=
        countResend_retries storedMiddle
      refine ⟨old, storedBefore, header.trans headerBefore, Nat.le_trans moreBefore more, ?_⟩
      rw [List.map_cons, List.count_cons]
      simp only [beq_iff_eq]
      omega

theorem mem_foldl_countResend {resends : List (Nat × PendingSend)} (member : seq ∈ pending)
    : seq ∈ resends.foldl (fun pending entry => countResend now pending entry.1) pending := by
  induction resends generalizing pending with
  | nil => exact member
  | cons first rest ih =>
      have kept : seq ∈ countResend now pending first.1 := by
        unfold countResend
        split
        · split
          · exact Std.TreeMap.mem_insert.mpr (.inr member)
          · exact member
        · exact member
      exact ih kept

end Report

namespace Repair

variable {sender next : Peer} {resends : List PendingSend} {payload : Bytes} {now : TimePoint}

/-- What a step that sends no new packet does to the kept ones: it may remove some, and a resend counts.
-/
structure Settles (sender next : Peer) (resends : List PendingSend) : Prop where
  counter : next.sequenceOut = sender.sequenceOut
  kept : ∀ (seq : Nat) (entry : PendingSend), next.pending[seq]? = some entry
    → ∃ old, sender.pending[seq]? = some old ∧ entry.header = old.header ∧ old.retries ≤ entry.retries
      ∧ entry.retries ≤ old.retries + (resends.map fun entry => entry.header.sequence.toNat).count seq
  resent : ∀ entry ∈ resends, ∃ seq : Nat, sender.pending[seq]? = some entry

theorem settles_erase (sender : Peer) (seq : Nat)
    : Settles sender { sender with pending := sender.pending.erase seq } [] where
  counter := rfl
  kept := by
    intro other entry stored
    rw [Std.TreeMap.getElem?_erase] at stored
    split at stored
    · cases stored
    · exact ⟨entry, stored, rfl, Nat.le_refl _, Nat.le_refl _⟩
  resent := fun entry member => absurd member List.not_mem_nil

theorem handle_settles (handled : Report.handle sender payload now = (next, resends))
    (numbers : ∀ (seq : Nat) (entry : PendingSend), sender.pending[seq]? = some entry
      → entry.header.sequence.toNat = seq)
    : Settles sender next resends := by
  unfold Report.handle at handled
  rcases parsed : Report.parse payload with _ | contents
  · simp only [parsed] at handled
    obtain ⟨rfl, rfl⟩ := Prod.mk.inj handled
    refine ⟨rfl, ?_, fun entry member => absurd member List.not_mem_nil⟩
    exact fun seq entry stored => ⟨entry, stored, rfl, Nat.le_refl _, Nat.le_refl _⟩
  · simp only [parsed] at handled
    obtain ⟨rfl, rfl⟩ := Prod.mk.inj handled
    have resent {entry : Nat × PendingSend} (member : entry ∈ Report.resent sender.pending contents)
        : sender.pending[entry.1]? = some entry.2 :=
      Std.TreeMap.mem_toList_iff_getElem?_eq_some.mp (List.mem_filter.mp member).1
    refine ⟨rfl, ?_, ?_⟩
    · intro seq entry stored
      obtain ⟨old, kept, header, more, bound⟩ := Report.foldl_countResend_retries stored
      rw [Std.TreeMap.getElem?_filter', Option.filter_eq_some_iff] at kept
      have same : (Report.resent sender.pending contents).map Prod.fst
          = ((Report.resent sender.pending contents).map Prod.snd).map fun entry =>
            entry.header.sequence.toNat := by
        rw [List.map_map]
        exact List.map_congr_left fun entry member => (numbers _ _ (resent member)).symm
      rw [same] at bound
      exact ⟨old, kept.1, header, more, bound⟩
    · intro entry member
      obtain ⟨⟨seq, old⟩, among, rfl⟩ := List.mem_map.mp member
      exact ⟨seq, resent among⟩

/-- A report only removes what is out of retries, or what it acknowledges without listing it. -/
theorem of_mem_removed (handled : Report.handle sender payload now = (next, resends)) {seq : Nat}
    {entry : PendingSend} (member : (seq, entry) ∈ removed sender next)
    : sender.pending[seq]? = some entry
      ∧ (Report.kMaxRetries ≤ entry.retries
        ∨ ∃ contents, Report.parse payload = some contents ∧ seq ≤ contents.ackSeq
          ∧ seq ∉ contents.lost) := by
  obtain ⟨listed, gone⟩ := List.mem_filter.mp member
  have found : sender.pending[seq]? = some entry :=
    Std.TreeMap.mem_toList_iff_getElem?_eq_some.mp listed
  have absent : seq ∉ next.pending := by
    rw [Std.TreeMap.mem_iff_contains, Bool.not_eq_true]
    simpa using gone
  refine ⟨found, ?_⟩
  unfold Report.handle at handled
  rcases parsed : Report.parse payload with _ | contents
  · simp only [parsed] at handled
    obtain ⟨rfl, -⟩ := Prod.mk.inj handled
    rw [Std.TreeMap.mem_iff_isSome_getElem?, found] at absent
    exact absurd rfl absent
  · simp only [parsed] at handled
    obtain ⟨rfl, -⟩ := Prod.mk.inj handled
    have pruned : Report.pruned contents seq entry = true := by
      by_contra spared
      refine absent (Report.mem_foldl_countResend ?_)
      rw [Std.TreeMap.mem_iff_isSome_getElem?, Std.TreeMap.getElem?_filter', found,
        Option.filter_some, if_pos (by simpa using spared)]
      rfl
    rw [Report.pruned, Bool.or_eq_true, Bool.and_eq_true, decide_eq_true_iff,
      decide_eq_true_iff] at pruned
    rcases pruned with ⟨acknowledged, unlisted⟩ | spent
    · exact .inr ⟨contents, rfl, acknowledged, by simpa using unlisted⟩
    · exact .inl spent

-- The invariant

variable {numerics : Numerics} {identity : Identity} {repair after : Repair}
  {history : List RepairStage} {stage : RepairStage} {event : RepairEvent} {outputs : List RepairEffect}

theorem arrivedIn_append
    : arrivedIn (history ++ [stage]) = arrivedIn history ++ stage.number.toList := by
  rw [arrivedIn, List.filterMap_append, ← arrivedIn]
  cases number : stage.number <;> simp [number]

theorem resendsIn_append (seq : Nat)
    : resendsIn (history ++ [stage]) seq = resendsIn history seq + stage.outputs.count (.resent seq) := by
  simp [resendsIn]

/-- A condition on one step: no number before the last is given out, the cursor does not start beyond an
owed packet, and a report has few gaps to list, all in the table and among them all owed ones that the
cursor has passed.
-/
def Traced (_ : List RepairStage) (repair : Repair) : RepairEvent → Prop
  | .send .. | .control .. => repair.sender.sequenceOut + 1 < 2 ^ 32
  | .arrive index _ =>
      repair.receiver.tracker.seqInitialized = false
        → ∀ packet, repair.dataAt index = some packet
        → packet.1.sequence.toNat ≠ 0
        → ∀ seq < packet.1.sequence.toNat, ¬Owed repair.sender seq
  | .report reportInterval now =>
      (Report.lostOf repair.receiver reportInterval now).length ≤ Report.kMaxLost
        ∧ repair.receiver.tracker.missingSeqs.size ≤ Report.kMaxMissing
        ∧ ∀ gap since, repair.receiver.tracker.missingSeqs[gap]? = some since
          → gap < repair.receiver.tracker.nextExpectedSeq
          → Owed repair.sender gap
          → Report.Listed (Report.giveUpUs reportInterval)
            (Report.lossThreshold repair.receiver.senderRttUs) now (gap, since)
  | _ => True

/-- Every owed packet behind the cursor of the receiver has arrived or is in the missing table, and every
report acknowledges only what has arrived or what it lists.
-/
structure Sound (history : List RepairStage) (repair : Repair) : Prop where
  counter : 0 < repair.sender.sequenceOut ∧ repair.sender.sequenceOut < 2 ^ 32
  kept : ∀ (seq : Nat) (entry : PendingSend), repair.sender.pending[seq]? = some entry
    → 0 < seq ∧ seq < repair.sender.sequenceOut ∧ entry.header.sequence.toNat = seq
      ∧ entry.retries ≤ resendsIn history seq
  numbered : ∀ packet ∈ repair.packets, packet.1.sequence.toNat < repair.sender.sequenceOut
  negotiated : (repair.receiver.retransmit && repair.receiver.peerRetransmit) = true
  steady : repair.receiver.tracker.Steady
  below : Below repair.sender.sequenceOut repair.receiver.tracker
  guards : Guards (Owed repair.sender) (· ∈ arrivedIn history) repair.receiver.tracker
  reports : ∀ payload ∈ repair.reports, ∀ contents, Report.parse payload = some contents
    → contents.ackSeq < repair.sender.sequenceOut
      ∧ ∀ seq, Owed repair.sender seq → seq ≤ contents.ackSeq
        → seq ∈ arrivedIn history ∨ seq ∈ contents.lost

theorem sound_initial : Sound [] {} where
  counter := by decide
  kept := fun seq entry stored => by simp at stored
  numbered := fun packet member => absurd member List.not_mem_nil
  negotiated := rfl
  steady := steady_new
  below := ⟨by decide, fun seq member => absurd member Std.TreeSet.not_mem_emptyc,
    fun gap member => absurd member Std.TreeMap.not_mem_emptyc⟩
  guards := ⟨fun seq _ below => absurd below (Nat.not_lt_zero seq),
    fun seq member => absurd member Std.TreeSet.not_mem_emptyc⟩
  reports := fun payload member => absurd member List.not_mem_nil

/-- A step of the sender that adds packets under the next number at most. -/
theorem Sound.draws (sound : Sound history repair) (room : repair.sender.sequenceOut + 1 < 2 ^ 32)
    {packets : List (PacketHeader × Bytes)} {sender : Peer}
    (draws : Draws repair.sender sender)
    (more : ∀ packet ∈ packets, packet.1.sequence.toNat < sender.sequenceOut)
    (silent : stage.number = none)
    : Sound (history ++ [stage])
        { repair with sender := sender, packets := repair.packets ++ packets } := by
  have same : arrivedIn (history ++ [stage]) = arrivedIn history := by
    rw [arrivedIn_append, silent]
    exact List.append_nil _
  have counted (seq : Nat) : resendsIn history seq ≤ resendsIn (history ++ [stage]) seq := by
    rw [resendsIn_append]
    exact Nat.le_add_right _ _
  obtain ⟨counter, onward, kept⟩
      : (0 < sender.sequenceOut ∧ sender.sequenceOut < 2 ^ 32)
        ∧ repair.sender.sequenceOut ≤ sender.sequenceOut
        ∧ ∀ seq entry, sender.pending[seq]? = some entry
          → repair.sender.pending[seq]? = some entry
            ∨ repair.sender.sequenceOut = seq ∧ seq < sender.sequenceOut
              ∧ entry.header.sequence.toNat = seq ∧ entry.retries = 0 := by
    obtain ⟨positive, small⟩ := sound.counter
    rcases draws with ⟨number, pending⟩ | ⟨number, pending⟩
    · rw [number, pending]
      exact ⟨⟨positive, small⟩, Nat.le_refl _, fun _ _ => .inl⟩
    · rw [u32_of_lt room] at number
      rw [u32_of_lt small] at pending
      refine ⟨⟨by omega, by omega⟩, by omega, ?_⟩
      intro seq entry stored
      refine (pending seq entry stored).imp_right ?_
      rintro ⟨rfl, header, retries⟩
      refine ⟨rfl, by omega, header, ?_⟩
      rw [retries, Std.TreeMap.getD_eq_getD_getElem?]
      rcases found : repair.sender.pending[repair.sender.sequenceOut]? with _ | old
      · rfl
      · exact absurd (sound.kept _ old found).2.1 (Nat.lt_irrefl _)
  have owed {seq : Nat} (due : Owed sender seq)
      : Owed repair.sender seq ∨ repair.sender.sequenceOut = seq := by
    obtain ⟨entry, stored, data, retries⟩ := due
    exact (kept seq entry stored).imp (fun found => ⟨entry, found, data, retries⟩) And.left
  constructor
  · exact counter
  · intro seq entry stored
    rcases kept seq entry stored with found | ⟨rfl, below, header, fresh⟩
    · obtain ⟨positive, below, header, bound⟩ := sound.kept seq entry found
      exact ⟨positive, Nat.lt_of_lt_of_le below onward, header, Nat.le_trans bound (counted seq)⟩
    · exact ⟨sound.counter.1, below, header, fresh ▸ Nat.zero_le _⟩
  · intro packet member
    rcases List.mem_append.mp member with earlier | new
    · exact Nat.lt_of_lt_of_le (sound.numbered packet earlier) onward
    · exact more packet new
  · exact sound.negotiated
  · exact sound.steady
  · exact ⟨Nat.le_trans sound.below.cursor onward,
      fun seq member => Nat.lt_of_lt_of_le (sound.below.received seq member) onward,
      fun gap member => Nat.lt_of_lt_of_le (sound.below.gaps gap member) onward⟩
  · rw [same]
    refine ⟨?_, sound.guards.ahead⟩
    intro seq due below
    rcases owed due with before | rfl
    · exact sound.guards.behind seq before below
    · exact absurd below (Nat.not_lt.mpr sound.below.cursor)
  · rw [same]
    intro payload member contents parsed
    obtain ⟨bound, acknowledges⟩ := sound.reports payload member contents parsed
    refine ⟨Nat.lt_of_lt_of_le bound onward, ?_⟩
    intro seq due acknowledged
    rcases owed due with before | rfl
    · exact acknowledges seq before acknowledged
    · exact absurd acknowledged (Nat.not_le.mpr bound)

/-- A step that changes neither what is owed nor the receiver. -/
theorem Sound.settles (sound : Sound history repair) (settles : Settles repair.sender sender resends)
    (silent : stage.number = none)
    (counts : ∀ seq, (resends.map fun entry => entry.header.sequence.toNat).count seq
      ≤ stage.outputs.count (.resent seq))
    : Sound (history ++ [stage])
        {
          repair with
          sender := sender
          packets := repair.packets ++ resends.map fun entry => (entry.header, entry.payload)
        } := by
  have same : arrivedIn (history ++ [stage]) = arrivedIn history := by
    rw [arrivedIn_append, silent]
    exact List.append_nil _
  have owed {seq : Nat} (due : Owed sender seq) : Owed repair.sender seq := by
    obtain ⟨entry, stored, data, retries⟩ := due
    obtain ⟨old, found, header, more, -⟩ := settles.kept seq entry stored
    exact ⟨old, found, header ▸ data, Nat.lt_of_le_of_lt more retries⟩
  have number := settles.counter
  constructor
  · rw [number]
    exact sound.counter
  · intro seq entry stored
    obtain ⟨old, found, header, -, more⟩ := settles.kept seq entry stored
    obtain ⟨positive, below, numbered, bound⟩ := sound.kept seq old found
    refine ⟨positive, by rwa [number], by rwa [header], ?_⟩
    rw [resendsIn_append]
    exact Nat.le_trans more (Nat.add_le_add bound (counts seq))
  · intro packet member
    rw [number]
    rcases List.mem_append.mp member with earlier | again
    · exact sound.numbered packet earlier
    · obtain ⟨entry, among, rfl⟩ := List.mem_map.mp again
      obtain ⟨seq, stored⟩ := settles.resent entry among
      obtain ⟨-, below, header, -⟩ := sound.kept seq entry stored
      rwa [header]
  · exact sound.negotiated
  · exact sound.steady
  · rw [number]
    exact sound.below
  · rw [same]
    exact sound.guards.mono (fun _ => owed) fun _ => id
  · rw [same, number]
    intro payload member contents parsed
    obtain ⟨bound, acknowledges⟩ := sound.reports payload member contents parsed
    exact ⟨bound, fun seq due => acknowledges seq (owed due)⟩

theorem Sound.receives (sound : Sound history repair) {receiver : Peer} {reports : List Bytes}
    (earlier : ∀ seq ∈ arrivedIn history, seq ∈ arrivedIn (history ++ [stage]))
    (negotiated : (receiver.retransmit && receiver.peerRetransmit) = true)
    (steady : receiver.tracker.Steady) (below : Below repair.sender.sequenceOut receiver.tracker)
    (guards : Guards (Owed repair.sender) (· ∈ arrivedIn (history ++ [stage])) receiver.tracker)
    (new : ∀ payload ∈ reports, ∀ contents, Report.parse payload = some contents
      → contents.ackSeq < repair.sender.sequenceOut
        ∧ ∀ seq, Owed repair.sender seq → seq ≤ contents.ackSeq
          → seq ∈ arrivedIn (history ++ [stage]) ∨ seq ∈ contents.lost)
    : Sound (history ++ [stage])
        { repair with receiver := receiver, reports := repair.reports ++ reports } where
  counter := sound.counter
  kept := by
    intro seq entry stored
    obtain ⟨positive, bound, header, retries⟩ := sound.kept seq entry stored
    rw [resendsIn_append]
    exact ⟨positive, bound, header, Nat.le_add_right_of_le retries⟩
  numbered := sound.numbered
  negotiated := negotiated
  steady := steady
  below := below
  guards := guards
  reports := by
    intro payload member contents parsed
    rcases List.mem_append.mp member with sent | built
    · obtain ⟨bound, acknowledges⟩ := sound.reports payload sent contents parsed
      refine ⟨bound, ?_⟩
      intro seq due acknowledged
      exact (acknowledges seq due acknowledged).imp_left (earlier seq)
    · exact new payload built contents parsed

theorem Sound.report (sound : Sound history repair) {reportInterval : Int} {now : TimePoint}
    (traced : Traced history repair (.report reportInterval now)) (silent : stage.number = none)
    : Sound (history ++ [stage])
        {
          repair with
          receiver := (Report.buildPayload numerics repair.receiver reportInterval now).1
          reports := repair.reports
            ++ [(Report.buildPayload numerics repair.receiver reportInterval now).2]
        } := by
  obtain ⟨few, small, due⟩ := traced
  have same : arrivedIn (history ++ [stage]) = arrivedIn history := by
    rw [arrivedIn_append, silent]
    exact List.append_nil _
  obtain ⟨guards, listed⟩ := Report.scan_guards sound.steady sound.negotiated small sound.guards due
  have below := @Report.scan_below now repair.receiver reportInterval _ sound.steady
    sound.negotiated sound.below
  refine sound.receives (fun seq member => same ▸ member) sound.negotiated
    (Report.scan_scans sound.steady reportInterval now).1.steady below (same ▸ guards) ?_
  intro payload member contents parsed
  obtain rfl := List.mem_singleton.mp member
  have gaps : ∀ gap ∈ repair.receiver.tracker.missingSeqs, gap < 2 ^ 32 := fun gap member =>
    Nat.lt_of_succ_lt (sound.steady.gaps gap member)
  have full : Report.lostCount (Report.lostOf repair.receiver reportInterval now)
      = (Report.lostOf repair.receiver reportInterval now).length := by
    have bound : Report.kMaxLost = 256 := rfl
    rw [Report.lostCount, u16, Nat.mod_eq_of_lt (by omega), Nat.min_eq_left few]
  rw [Report.parse_buildPayload sound.steady.ahead.cursor gaps, full, List.take_length] at parsed
  obtain rfl := Option.some.inj parsed
  obtain ⟨ack, acked⟩ : ∃ ack, ack = Report.ackSeq (Report.scan repair.receiver reportInterval now).1 :=
    ⟨_, rfl⟩
  have cursor : ack = 0
      ∨ ack + 1 = (Report.scan repair.receiver reportInterval now).1.nextExpectedSeq := by
    rw [acked, Report.ackSeq]
    split <;> omega
  have acknowledges : ack < repair.sender.sequenceOut
      ∧ ∀ seq, Owed repair.sender seq → seq ≤ ack
        → seq ∈ arrivedIn history ∨ seq ∈ Report.lostOf repair.receiver reportInterval now := by
    constructor
    · have positive := sound.counter.1
      have bound := below.cursor
      omega
    · intro seq owes acknowledged
      have positive : 0 < seq := by
        obtain ⟨entry, stored, -⟩ := owes
        exact (sound.kept seq entry stored).1
      exact listed seq owes (by omega)
  rw [acked] at acknowledges
  rw [same]
  exact acknowledges

theorem Sound.arrives (sound : Sound history repair) {index : Nat} {context : Context}
    {packet : PacketHeader × Bytes} {receiver : Peer} {delivered : Option Bytes}
    (traced : Traced history repair (.arrive index context)) (found : repair.dataAt index = some packet)
    (handled : handleData numerics repair.receiver packet.1 packet.2 context
      = .ok (receiver, delivered))
    (number : stage.number = some packet.1.sequence.toNat)
    : Sound (history ++ [stage]) { repair with receiver := receiver } := by
  have received {seq : Nat}
      : seq ∈ arrivedIn (history ++ [stage])
        ↔ seq ∈ arrivedIn history ∨ seq = packet.1.sequence.toNat := by
    rw [arrivedIn_append, number, List.mem_append, Option.toList_some, List.mem_singleton]
  have sent : packet ∈ repair.packets :=
    List.mem_of_getElem? (Option.filter_eq_some_iff.mp found).1
  obtain ⟨late, collection, rfl⟩ := Link.reassemblerHandleData_peer handled
  have guards : Guards (Owed repair.sender) (· ∈ arrivedIn (history ++ [stage]))
      repair.receiver.tracker :=
    sound.guards.mono (fun _ => id) fun seq member => received.mpr (.inl member)
  rw [← List.append_nil repair.reports]
  refine sound.receives (fun seq member => received.mpr (.inl member)) sound.negotiated ?_ ?_ ?_
    fun payload member => absurd member List.not_mem_nil
  · exact trackSequence_steady sound.steady packet.1.sequence.toNat_lt
  · exact trackSequence_below sound.steady packet.1.sequence.toNat_lt sound.below
      (sound.numbered packet sent)
  · exact trackSequence_guards sound.steady packet.1.sequence.toNat_lt guards
      (fun _ => received.mpr (.inr rfl)) fun idle => traced idle packet found

/-- A step after which both records and the network are as before. -/
theorem Sound.rests (sound : Sound history repair) (silent : stage.number = none)
    : Sound (history ++ [stage]) repair := by
  have same : arrivedIn (history ++ [stage]) = arrivedIn history := by
    rw [arrivedIn_append, silent]
    exact List.append_nil _
  have rested := @Sound.receives repair history stage sound repair.receiver []
    (fun seq member => same ▸ member) sound.negotiated sound.steady sound.below
    (same ▸ sound.guards) fun payload member => absurd member List.not_mem_nil
  rwa [List.append_nil] at rested

/-- The number of a packet that is sent is given out by then. -/
theorem packet_numbered {call : FragmentCall} {moment : Moment} {key : Bytes} {rttUs : Nat}
    (counter : 0 < repair.sender.sequenceOut) (room : repair.sender.sequenceOut + 1 < 2 ^ 32)
    : (packet identity moment call repair.sender).1.sequence.toNat
      < (Link.sendDataPacket identity moment call
          { key := key, peer := repair.sender, rttUs := rttUs }).peer.sequenceOut := by
  have drawn (ackable : call.header.type = PacketType.data.code)
      : (Link.sendDataPacket identity moment call
          { key := key, peer := repair.sender, rttUs := rttUs }).peer.sequenceOut
        = u32 (repair.sender.sequenceOut + 1) := by
    unfold Link.sendDataPacket
    dsimp only
    rw [if_pos ackable]
    split
    · rw [Link.sendWire_peer]
      rfl
    · rw [Link.sendWire_peer]
  have number : (packet identity moment call repair.sender).1.sequence.toNat
      = if PendingTable.ackable call then repair.sender.sequenceOut else 0 := by
    rw [packet, PendingTable.dataHeader]
    refine UInt32.toNat_ofNat_of_lt' (show _ < 2 ^ 32 from ?_)
    split <;> omega
  rw [number]
  by_cases ackable : call.header.type = PacketType.data.code
  · rw [drawn ackable, u32_of_lt room, PendingTable.ackable, decide_eq_true ackable, if_pos rfl]
    exact Nat.lt_succ_self _
  · rw [PendingTable.ackable, decide_eq_false ackable, if_neg Bool.false_ne_true]
    unfold Link.sendDataPacket
    dsimp only
    rw [if_neg ackable, Link.sendWire_peer]
    exact counter

theorem Sound.step (sound : Sound history repair) (traced : Traced history repair event)
    (taken : repair.step numerics identity event = .ok (after, outputs))
    : Sound (history ++ [{ before := repair, event := event, outputs := outputs }]) after := by
  cases event with
  | send call moment =>
      cases taken
      refine sound.draws traced (Link.sendDataPacket_draws call) ?_ rfl
      intro sent member
      obtain rfl := List.mem_singleton.mp member
      exact packet_numbered sound.counter.1 traced
  | control type payload moment =>
      cases taken
      rw [onSender, ← List.append_nil repair.packets]
      refine sound.draws traced (Link.sendControl_draws type payload) ?_ rfl
      exact fun packet member => absurd member List.not_mem_nil
  | acknowledged seq =>
      cases taken
      rw [← List.append_nil repair.packets]
      exact sound.settles (settles_erase repair.sender seq) rfl fun _ => Nat.le_refl _
  | arrive index context =>
      rw [Repair.step] at taken
      rcases found : repair.dataAt index with _ | ⟨header, payload⟩
      · simp only [found] at taken
        cases taken
        refine sound.rests ?_
        rw [RepairStage.number]
        simp only [found, Option.map_none]
      · simp only [found] at taken
        rcases handled : handleData numerics repair.receiver header payload context with
          fault | ⟨receiver, delivered⟩
        · simp only [handled] at taken
          cases taken
        · simp only [handled] at taken
          cases taken
          refine sound.arrives traced found handled ?_
          rw [RepairStage.number]
          simp only [found, Option.map_some]
  | heartbeat senderRttUs =>
      cases taken
      rw [← List.append_nil repair.reports]
      have same : arrivedIn (history
          ++ [{ before := repair, event := .heartbeat senderRttUs, outputs := [] }])
          = arrivedIn history := by
        rw [arrivedIn_append]
        exact List.append_nil _
      refine sound.receives ?_ sound.negotiated sound.steady sound.below ?_ ?_
      · exact fun seq member => same ▸ member
      · exact same ▸ sound.guards
      · exact fun payload member => absurd member List.not_mem_nil
  | report reportInterval now =>
      cases taken
      exact sound.report traced rfl
  | reported index now =>
      rw [Repair.step] at taken
      rcases found : repair.reports[index]? with _ | payload
      · simp only [found] at taken
        cases taken
        exact sound.rests rfl
      · simp only [found] at taken
        rcases handled : Report.handle repair.sender payload now with ⟨sender, resends⟩
        simp only [handled] at taken
        cases taken
        refine sound.settles ?_ rfl ?_
        · exact handle_settles handled fun seq entry stored => (sound.kept seq entry stored).2.2.1
        · intro seq
          rw [List.count_append]
          refine Nat.le_add_right_of_le (Nat.le_of_eq ?_)
          have split : (resends.map fun entry => RepairEffect.resent entry.header.sequence.toNat)
              = (resends.map fun entry => entry.header.sequence.toNat).map RepairEffect.resent := by
            rw [List.map_map]
            rfl
          rw [split]
          refine (List.count_map_of_injective _ _ ?_ seq).symm
          exact fun _ _ same => RepairEffect.resent.inj same

/-- In every run whose steps are traced, what a report removes has arrived or is out of retries. -/
theorem sound_of_run (run : Run (step numerics identity) Traced {} history repair)
    : Sound history repair :=
  run.invariant Sound sound_initial fun _ _ _ _ _ _ sound traced taken => sound.step traced taken

theorem step_removed {seq : Nat} {entry : PendingSend}
    (taken : repair.step numerics identity event = .ok (after, outputs))
    (member : .removed seq entry ∈ outputs)
    : ∃ payload ∈ repair.reports, ∃ now, (seq, entry)
      ∈ removed repair.sender (Report.handle repair.sender payload now).1 := by
  cases event with
  | arrive index context =>
      rw [Repair.step] at taken
      rcases found : repair.dataAt index with _ | ⟨header, payload⟩
      · simp only [found] at taken
        cases taken
        cases member
      · simp only [found] at taken
        rcases handled : handleData numerics repair.receiver header payload context with
          fault | ⟨receiver, delivered⟩
        · simp only [handled] at taken
          cases taken
        · simp only [handled] at taken
          cases taken
          cases member
  | reported index now =>
      rw [Repair.step] at taken
      rcases found : repair.reports[index]? with _ | payload
      · simp only [found] at taken
        cases taken
        cases member
      · simp only [found] at taken
        cases taken
        refine ⟨payload, List.mem_of_getElem? found, now, ?_⟩
        rcases List.mem_append.mp member with again | gone
        · obtain ⟨_, _, impossible⟩ := List.mem_map.mp again
          cases impossible
        · obtain ⟨⟨_, _⟩, among, same⟩ := List.mem_map.mp gone
          obtain ⟨rfl, rfl⟩ := RepairEffect.removed.inj same
          exact among
  | _ =>
      cases taken
      cases member

/-- A Data packet that is removed through a report has arrived, or has been sent again as often as
packets are.
-/
def NoSilentLoss (history : List RepairStage) : Prop :=
  ∀ front stage back, history = front ++ stage :: back
    → ∀ seq entry, .removed seq entry ∈ stage.outputs
    → entry.header.type = PacketType.data.code
    → seq ∈ arrivedIn front ∨ Report.kMaxRetries ≤ resendsIn front seq

/-- No Data packet is lost silently in a run whose steps are traced. -/
theorem noSilentLoss_of_traced (run : Run (step numerics identity) Traced {} history repair)
    : NoSilentLoss history := by
  intro front stage back split seq entry member data
  obtain ⟨earlier, -, after, taken⟩ := run.at_stage split
  have sound := sound_of_run earlier
  obtain ⟨payload, sent, now, gone⟩ := step_removed taken member
  obtain ⟨stored, reason⟩ := of_mem_removed rfl gone
  have counted := (sound.kept seq entry stored).2.2.2
  rcases Nat.lt_or_ge entry.retries Report.kMaxRetries with left | spent
  · obtain ⟨contents, parsed, acknowledged, unlisted⟩ := reason.resolve_left (Nat.not_le.mpr left)
    have acknowledges := (sound.reports payload sent contents parsed).2
    exact .inl ((acknowledges seq ⟨entry, stored, data, left⟩ acknowledged).resolve_right unlisted)
  · exact .inr (Nat.le_trans spent counted)

-- Runs on given events

/-- Whether a kept packet is owed. -/
def owes (entry : Nat × PendingSend) : Bool :=
  entry.2.header.type = PacketType.data.code && entry.2.retries < Report.kMaxRetries

/-- A check for `Traced`. -/
def traces (_ : List RepairStage) (repair : Repair) : RepairEvent → Bool
  | .send .. | .control .. => repair.sender.sequenceOut + 1 < 2 ^ 32
  | .arrive index _ =>
      repair.receiver.tracker.seqInitialized
      || (repair.dataAt index).all fun packet =>
        repair.sender.pending.toList.all fun entry =>
          !(decide (entry.1 < packet.1.sequence.toNat) && owes entry)
  | .report reportInterval now =>
      (Report.lostOf repair.receiver reportInterval now).length ≤ Report.kMaxLost
      && repair.receiver.tracker.missingSeqs.size ≤ Report.kMaxMissing
      && repair.receiver.tracker.missingSeqs.toList.all fun entry =>
        decide (Report.Listed (Report.giveUpUs reportInterval)
          (Report.lossThreshold repair.receiver.senderRttUs) now entry)
  | _ => true

theorem traced_of_traces (traced : traces history repair event = true)
    : Traced history repair event := by
  cases event with
  | send call moment =>
      exact (of_decide_eq_true traced : repair.sender.sequenceOut + 1 < 2 ^ 32)
  | control type payload moment =>
      exact (of_decide_eq_true traced : repair.sender.sequenceOut + 1 < 2 ^ 32)
  | arrive index context =>
      intro idle packet found _ seq before due
      obtain ⟨entry, stored, data, left⟩ := due
      rw [traces, idle, Bool.false_or, found, Option.all_some, List.all_eq_true] at traced
      have spared := traced (seq, entry) (Std.TreeMap.mem_toList_iff_getElem?_eq_some.mpr stored)
      simp [owes, before, data, left] at spared
  | report reportInterval now =>
      simp only [traces, Bool.and_eq_true, List.all_eq_true, decide_eq_true_iff] at traced
      obtain ⟨⟨few, small⟩, listed⟩ := traced
      refine ⟨few, small, ?_⟩
      exact fun gap since noted _ _ =>
        listed (gap, since) (Std.TreeMap.mem_toList_iff_getElem?_eq_some.mpr noted)
  | acknowledged seq => trivial
  | heartbeat senderRttUs => trivial
  | reported index now => trivial

/-- A fragment of a message of two data fragments and one parity fragment. -/
def fragment (idx : UInt16) : FragmentCall where
  msgId := 1
  idx := idx
  cnt := 3
  dataCnt := 2
  realSize := 1
  data := [0]
  width := 1

def around (now : TimePoint) : Context where
  now := now
  arrivalMs := 0
  rttUs := 0
  maxMessageBytes := 65536

/-- Two Data packets are sent and one of them arrives, and so does the next report. -/
def oneArrives (index : Nat) : List RepairEvent :=
  [
    .send (fragment 0) ⟨0, 0⟩, .send (fragment 1) ⟨0, 0⟩, .arrive index (around 1000),
    .report 1000000000 2000, .reported 0 3000
  ]

/-- The first of two packets arrives, and is removed. -/
theorem first_removed
    : ∃ history last, Run (step default {}) Traced {} history last
      ∧ (history.flatMap fun stage => stage.outputs) ≠ []
      ∧ NoSilentLoss history := by
  obtain ⟨history, last, run, passes⟩ := @Run.of_shows _ _ _ _ (step default {}) {} (oneArrives 0)
    (fun history => audit traces [] history && !(history.flatMap fun stage => stage.outputs).isEmpty)
    (by decide +kernel)
  obtain ⟨traced, removes⟩ := Bool.and_eq_true_iff.mp passes
  have run := run.of_audit (fun _ _ _ => traced_of_traces) traced
  exact ⟨history, last, run, by simpa using removes, noSilentLoss_of_traced run⟩

/-- Whether the last step of a history removes Data packet 1, which has neither arrived nor been sent
again.
-/
def losesFirst (history : List RepairStage) : Bool :=
  match history.getLast? with
  | none => false
  | some stage =>
      (stage.outputs.any fun effect =>
        match effect with
        | .removed seq entry => seq = 1 && entry.header.type = PacketType.data.code
        | .resent _ => false)
      && !(arrivedIn history.dropLast).contains 1
      && resendsIn history.dropLast 1 < Report.kMaxRetries

theorem not_noSilentLoss (loses : losesFirst history = true) : ¬NoSilentLoss history := by
  intro kept
  unfold losesFirst at loses
  split at loses
  · cases loses
  · rename_i stage last
    have whole : history = history.dropLast ++ stage :: [] := by
      rw [List.dropLast_append_getLast? stage last]
    simp only [Bool.and_eq_true, List.any_eq_true, decide_eq_true_iff] at loses
    obtain ⟨⟨⟨effect, among, removes⟩, unknown⟩, few⟩ := loses
    split at removes
    · rename_i seq entry
      simp only [Bool.and_eq_true, decide_eq_true_iff] at removes
      obtain ⟨rfl, data⟩ := removes
      rcases kept _ _ _ whole 1 entry among data with arrived | spent
      · simp [arrived] at unknown
      · exact absurd few (Nat.not_lt.mpr spent)
    · cases removes

/-- The second of two packets arrives first: the report removes the first one, which has not arrived and
has never been sent again.
-/
theorem first_lost
    : ∃ history last, Run (step default {}) (fun _ _ _ => True) {} history last
      ∧ ¬NoSilentLoss history := by
  obtain ⟨history, last, run, loses⟩ := @Run.of_shows _ _ _ _ (step default {}) {} (oneArrives 1)
    losesFirst (by decide +kernel)
  exact ⟨history, last, run, not_noSilentLoss loses⟩

end Repair

end Creek.Tight
