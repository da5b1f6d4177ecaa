import Creek.Tight.PendingTable

/-! The pending table stays intact under every interleaving in which each sender still finds its
entry when it comes back to it.
-/

namespace Creek.Tight.PendingTable

open Library

/-- Every entry is the packet that was sent under its sequence, and not yet acknowledged. -/
def Intact (identity : Identity) (history : List PendingStage) (table : PendingTable) : Prop :=
  ∀ (seq : Nat) (entry : PendingSend),
    table.pending[seq]? = some entry
    → entry.header.sequence.toNat = seq
      ∧ (PendingLedger.of identity history).sent seq = some (entry.header, entry.payload)
      ∧ (PendingLedger.of identity history).acked seq = false

/-- A sender that comes back to its entry finds it. -/
def FindsEntry (stage : PendingStage) : Prop :=
  ∀ position seq wireSize,
    stage.event = .finish position
    → stage.before.sending[position]? = some (seq, wireSize)
    → stage.before.pending.contains seq = true

abbrev PendingRun (identity : Identity) (history : List PendingStage) (table : PendingTable)
    : Prop :=
  Run (step identity) (fun _ _ _ => True) {} history table

variable {identity : Identity} {history : List PendingStage} {table : PendingTable}

-- The ledger

theorem ledger_append (identity : Identity) (history : List PendingStage) (stage : PendingStage)
    : PendingLedger.of identity (history ++ [stage])
      = (PendingLedger.of identity history).record identity stage := by
  rw [PendingLedger.of, List.foldl_append]
  rfl

/-- What was sent carries the magic number, unlike the header of a fresh entry. -/
theorem magic_of_sent {seq : Nat} {packet : PacketHeader × Bytes}
    (sent : (PendingLedger.of identity history).sent seq = some packet)
    : packet.1.magic = kMagic := by
  induction history using List.reverseRecOn with
  | nil => cases sent
  | append_singleton history stage ih =>
      rw [ledger_append] at sent
      rcases stage with ⟨before, event, outputs⟩
      cases event with
      | insert call moment keep wireSize =>
          simp only [PendingLedger.record] at sent
          split at sent
          · simp only at sent
            split at sent
            · obtain rfl := Option.some.inj sent
              rfl
            · exact ih sent
          · exact ih sent
      | _ => exact ih sent

theorem sequenceOut_lt (run : PendingRun identity history table)
    : table.sequenceOut < 2 ^ 32 := by
  induction run with
  | start => decide
  | @next history before after event outputs run permitted taken ih =>
      cases taken
      cases event with
      | insert call moment keep wireSize =>
          simp only [apply, insert]
          split
          · split <;> exact Nat.mod_lt _ (by decide)
          · exact ih
      | finish position =>
          simp only [apply, finish]
          split <;> exact ih
      | ack seq =>
          simp only [apply, ack]
          split <;> exact ih
      | retry position now =>
          simp only [apply, retry]
          split <;> exact ih
      | prune report => exact ih
      | clear => exact ih

-- One section

variable {stage : PendingStage}

/-- An entry of a smaller table over the same ledger is still intact. -/
theorem Intact.of_subset {after : PendingTable} (intact : Intact identity history table)
    (ledger : PendingLedger.of identity (history ++ [stage]) = PendingLedger.of identity history)
    (subset : ∀ (seq : Nat) (entry : PendingSend),
      after.pending[seq]? = some entry
      → ∃ old, table.pending[seq]? = some old
        ∧ old.header = entry.header ∧ old.payload = entry.payload)
    : Intact identity (history ++ [stage]) after := by
  intro seq entry found
  obtain ⟨old, here, header, payload⟩ := subset seq entry found
  rw [ledger, ← header, ← payload]
  exact intact seq old here

theorem Intact.insert (intact : Intact identity history table)
    (small : table.sequenceOut < 2 ^ 32) (call : FragmentCall) (moment : Moment) (keep : Bool)
    (wireSize : Nat)
    : Intact identity (history ++ [⟨table, .insert call moment keep wireSize, []⟩])
        (table.insert identity call moment keep wireSize) := by
  by_cases kept : (ackable call && keep) = true
  · obtain ⟨data, rfl⟩ := Bool.and_eq_true_iff.mp kept
    intro seq entry found
    rw [ledger_append]
    simp only [PendingLedger.record, data, Bool.and_self, if_true]
    simp only [PendingTable.insert, data, if_true, Std.TreeMap.getElem?_insert] at found
    by_cases here : table.sequenceOut = seq
    · subst here
      simp only [Nat.compare_eq_eq, if_true, Option.some.injEq] at found
      subst found
      refine ⟨?_, if_pos rfl, if_pos rfl⟩
      rw [dataHeader, UInt32.toNat_ofNat']
      exact Nat.mod_eq_of_lt small
    · rw [if_neg (by rw [Nat.compare_eq_eq]; exact here)] at found
      rw [if_neg (Ne.symm here), if_neg (Ne.symm here)]
      exact intact seq entry found
  · refine intact.of_subset ?_ ?_
    · rw [ledger_append]
      exact if_neg kept
    · have same : (table.insert identity call moment keep wireSize).pending = table.pending := by
        rw [PendingTable.insert]
        split
        · rename_i data
          rw [if_neg (by simpa [data] using kept)]
        · rfl
      intro seq entry found
      rw [same] at found
      exact ⟨entry, found, rfl, rfl⟩

theorem Intact.ack (intact : Intact identity history table) (seq : Nat)
    : Intact identity (history ++ [⟨table, .ack seq, []⟩]) (table.ack seq) := by
  intro other entry found
  rw [ledger_append]
  simp only [PendingLedger.record]
  rw [PendingTable.ack] at found
  split at found
  · rename_i zero
    obtain ⟨number, sent, fresh⟩ := intact other entry found
    exact ⟨number, sent, by simp [fresh, zero]⟩
  · simp only [Std.TreeMap.getElem?_erase] at found
    split at found
    · cases found
    · rename_i apart
      rw [Nat.compare_eq_eq] at apart
      obtain ⟨number, sent, fresh⟩ := intact other entry found
      exact ⟨number, sent, by simp [fresh, Ne.symm apart]⟩

theorem Intact.prune (intact : Intact identity history table) (report : Report.Contents)
    : Intact identity (history ++ [⟨table, .prune report, []⟩]) (table.prune report) := by
  intro seq entry found
  rw [ledger_append]
  simp only [PendingLedger.record]
  simp only [PendingTable.prune, Std.TreeMap.getElem?_filter'] at found
  obtain ⟨here, passes⟩ := Option.filter_eq_some_iff.mp found
  obtain ⟨number, sent, fresh⟩ := intact seq entry here
  refine ⟨number, sent, ?_⟩
  simp only [Report.pruned, Bool.not_or, Bool.and_eq_true, Bool.not_eq_true'] at passes
  rw [fresh, Bool.false_or]
  exact passes.1

/-- A retry update changes neither header nor payload, and makes no entry. -/
theorem getElem?_countResend {pending : Std.TreeMap Nat PendingSend} {now : TimePoint}
    {seq other : Nat} {entry : PendingSend}
    (found : (Report.countResend now pending seq)[other]? = some entry)
    : ∃ old, pending[other]? = some old
        ∧ old.header = entry.header ∧ old.payload = entry.payload := by
  unfold Report.countResend at found
  cases here : pending[seq]? with
  | none =>
      rw [here] at found
      exact ⟨entry, found, rfl, rfl⟩
  | some old =>
      simp only [here] at found
      split at found
      · rw [Std.TreeMap.getElem?_insert] at found
        split at found
        · rename_i same
          rw [Nat.compare_eq_eq] at same
          subst same
          obtain rfl := Option.some.inj found
          exact ⟨old, here, rfl, rfl⟩
        · exact ⟨entry, found, rfl, rfl⟩
      · exact ⟨entry, found, rfl, rfl⟩

theorem Intact.retry (intact : Intact identity history table) (position : Nat) (now : TimePoint)
    : Intact identity (history ++ [⟨table, .retry position now, []⟩])
        (table.retry position now) := by
  refine intact.of_subset (by rw [ledger_append]; rfl) fun seq entry found => ?_
  unfold PendingTable.retry at found
  split at found
  · exact ⟨entry, found, rfl, rfl⟩
  · exact getElem?_countResend found

theorem Intact.clear (identity : Identity) (history : List PendingStage) (table : PendingTable)
    : Intact identity history table.clear := by
  intro seq entry found
  simp [PendingTable.clear] at found

/-- A sender that comes back keeps the table intact exactly when it finds its entry. Witness:
`operator[]` would make an entry without the magic number of what was sent.
-/
theorem Intact.finish_iff (intact : Intact identity history table) (position : Nat)
    : Intact identity (history ++ [⟨table, .finish position, []⟩]) (table.finish position)
      ↔ FindsEntry ⟨table, .finish position, []⟩ := by
  have ledger : PendingLedger.of identity (history ++ [⟨table, .finish position, []⟩])
      = PendingLedger.of identity history := by
    rw [ledger_append]
    rfl
  rcases waiting : table.sending[position]? with none_ | ⟨seq, wireSize⟩
  · have same : (table.finish position).pending = table.pending := by
      rw [PendingTable.finish, waiting]
    refine iff_of_true (intact.of_subset ledger fun seq entry found => ?_) ?_
    · rw [same] at found
      exact ⟨entry, found, rfl, rfl⟩
    · intro other seq wireSize event found
      cases event
      cases waiting.symm.trans found
  have entries : (table.finish position).pending
      = table.pending.insert seq { table.pending.getD seq {} with bytes := wireSize } := by
    rw [PendingTable.finish, waiting]
  constructor
  · intro after other seq' wireSize' event found
    cases event
    cases waiting.symm.trans found
    by_contra absent
    have fresh := after seq { bytes := wireSize } (by
      rw [entries, Std.TreeMap.getElem?_insert_self, Std.TreeMap.getD_eq_fallback (by simpa using absent)])
    rw [ledger] at fresh
    cases magic_of_sent fresh.2.1
  · intro finds
    have present := finds position seq wireSize rfl waiting
    refine intact.of_subset ledger fun other entry found => ?_
    rw [entries, Std.TreeMap.getElem?_insert] at found
    split at found
    · rename_i same
      rw [Nat.compare_eq_eq] at same
      subst same
      rw [Std.TreeMap.contains_eq_isSome_getElem?] at present
      obtain ⟨old, here⟩ := Option.isSome_iff_exists.mp present
      rw [Std.TreeMap.getD_eq_getD_getElem?, here, Option.getD_some] at found
      obtain rfl := Option.some.inj found
      exact ⟨old, here, rfl, rfl⟩
    · exact ⟨entry, found, rfl, rfl⟩

-- Every interleaving

/-- A fragment of one byte. -/
def shortCall : FragmentCall where
  msgId := 1
  idx := 0
  cnt := 2
  dataCnt := 1
  realSize := 1
  data := [7]
  width := 1

/-- Any interleaving of the sections keeps the table intact throughout exactly when every sender
that comes back to its entry still finds it.
-/
theorem intact_iff_findsEntry (run : PendingRun identity history table)
    : Throughout (Intact identity) history table ↔ ∀ stage ∈ history, FindsEntry stage := by
  refine run.throughout_iff ?_ ?_
  · intro seq entry found
    simp at found
  · intro history table event after outputs run intact _ taken
    cases taken
    have other {event : PendingEvent} (apart : ∀ position, event ≠ .finish position)
        : FindsEntry ⟨table, event, []⟩ := by
      intro position seq wireSize same
      exact absurd same (apart position)
    cases event with
    | insert call moment keep wireSize =>
        exact iff_of_true (intact.insert (sequenceOut_lt run) call moment keep wireSize)
          (other (by simp))
    | finish position => exact intact.finish_iff position
    | ack seq => exact iff_of_true (intact.ack seq) (other (by simp))
    | prune report => exact iff_of_true (intact.prune report) (other (by simp))
    | retry position now => exact iff_of_true (intact.retry position now) (other (by simp))
    | clear => exact iff_of_true (Intact.clear identity _ table) (other (by simp))

/-- A sender that comes back before the acknowledgement keeps the table intact. -/
theorem intact_finish_before_ack
    : Throughout (Intact {})
        [
          ⟨{}, .insert shortCall ⟨0, 0⟩ true 49, []⟩,
          ⟨insert {} shortCall ⟨0, 0⟩ true 49 {}, .finish 0, []⟩
        ]
        ((insert {} shortCall ⟨0, 0⟩ true 49 {}).finish 0) := by
  have first : step {} {} (.insert shortCall ⟨0, 0⟩ true 49)
      = .ok (insert {} shortCall ⟨0, 0⟩ true 49 {}, []) := rfl
  have second : step {} (insert {} shortCall ⟨0, 0⟩ true 49 {}) (.finish 0)
      = .ok ((insert {} shortCall ⟨0, 0⟩ true 49 {}).finish 0, []) := rfl
  have run : PendingRun {} _ ((insert {} shortCall ⟨0, 0⟩ true 49 {}).finish 0) :=
    .next (.next .start trivial first) trivial second
  refine (intact_iff_findsEntry run).mpr fun stage member => ?_
  rcases List.mem_cons.mp member with rfl | member
  · intro position seq wireSize event found
    cases event
  · obtain rfl := List.mem_singleton.mp member
    intro position seq wireSize event found
    cases event
    have only : (seq, wireSize) = (1, 49) := (Option.some.inj found).symm
    cases only
    decide

/-- The acknowledgement comes in before the sender is back: its second section makes an entry for
the acknowledged sequence 1, with an empty payload and the sequence 0 in its header.
-/
theorem revived_entry
    : ∃ history table, PendingRun {} history table ∧ ¬Throughout (Intact {}) history table := by
  let sent : PendingTable := insert {} shortCall ⟨0, 0⟩ true 49 {}
  let acked := sent.ack 1
  let revived := acked.finish 0
  have first : step {} {} (.insert shortCall ⟨0, 0⟩ true 49) = .ok (sent, []) := rfl
  have second : step {} sent (.ack 1) = .ok (acked, []) := rfl
  have third : step {} acked (.finish 0) = .ok (revived, []) := rfl
  have run : PendingRun {} _ revived :=
    .next (.next (.next .start trivial first) trivial second) trivial third
  refine ⟨_, _, run, fun intact => ?_⟩
  have entry : revived.pending[1]? = some { bytes := 49 } := by
    decide
  have number := (intact.2 1 { bytes := 49 } entry).1
  cases number

end Creek.Tight.PendingTable
