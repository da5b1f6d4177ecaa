import Creek.Library.Separated
import Creek.Telemetry.MetricsStore

/-! Which events share a bucket. The key of an event joins its direction, its call and its metadata
without escaping the separators in them.
-/

namespace Creek.Telemetry

open Library
open Mesh (Metadata)
open Tight (Bytes)

variable {event other : MetricEvent} {metadata : Metadata} {direction rpcName name value : Bytes}

-- Metadata as text

/-- One entry of the text of metadata. -/
def entryText (entry : Bytes × Bytes) : Bytes := entry.1 ++ letter '=' :: entry.2

theorem metadataString_eq (metadata : Metadata)
    : metadataString metadata = [letter ';'].intercalate (metadata.toList.map entryText) := by
  rw [metadataString]
  congr 2
  funext ⟨name, value⟩
  simp only [entryText, List.append_assoc]
  rfl

theorem metadataString_nil (empty : metadata.toList = []) : metadataString metadata = [] := by
  rw [metadataString_eq, empty]
  rfl

theorem metadataString_single (single : metadata.toList = [(name, value)])
    : metadataString metadata = name ++ letter '=' :: value := by
  rw [metadataString_eq, single]
  exact List.append_nil _

theorem metadataString_cons {second : Bytes × Bytes} {rest : List (Bytes × Bytes)}
    (entries : metadata.toList = (name, value) :: second :: rest)
    : ∃ front back, metadataString metadata = name ++ letter '=' :: (value ++ front)
      ∧ front = letter ';' :: (second.1 ++ letter '=' :: back) := by
  rw [metadataString_eq, entries]
  cases rest with
  | nil =>
      refine ⟨_, second.2, ?_, rfl⟩
      simp [List.intercalate, List.intersperse, entryText]
  | cons third rest =>
      refine ⟨_, second.2 ++ letter ';' :: [letter ';'].intercalate ((third :: rest).map entryText),
        ?_, rfl⟩
      simp only [List.map_cons, List.intercalate_cons_cons, entryText, List.append_assoc,
        List.cons_append, List.nil_append]

/-- The metadata with one entry. -/
def singleton (name value : Bytes) : Metadata := (∅ : Metadata).insert name value

theorem toList_singleton (name value : Bytes) : (singleton name value).toList = [(name, value)] := by
  simp [singleton, Std.TreeMap.toList, Std.TreeMap.insert]
  rfl

theorem metadataString_singleton (name value : Bytes)
    : metadataString (singleton name value) = name ++ letter '=' :: value :=
  metadataString_single (toList_singleton name value)

-- Which metadata its text determines

/-- At most one entry, with one way to read it: no `=` in it, and no separator that could end the name of
the call.
-/
def Plain (metadata : Metadata) : Prop :=
  metadata.toList = [] ∨
    ∃ name value, metadata.toList = [(name, value)]
      ∧ letter '=' ∉ name ∧ letter '=' ∉ value
      ∧ keySeparator ∉ name ∧ value.getLast? ≠ some keySeparator

theorem metadataString_nil_or (metadata : Metadata)
    : metadataString metadata = [] ∨ letter '=' ∈ metadataString metadata := by
  rcases entries : metadata.toList with - | ⟨first, - | ⟨second, rest⟩⟩
  · exact .inl (metadataString_nil entries)
  · rw [metadataString_single entries]
    exact .inr (List.mem_append_right _ List.mem_cons_self)
  · obtain ⟨front, back, text, -⟩ := metadataString_cons entries
    rw [text]
    exact .inr (List.mem_append_right _ List.mem_cons_self)

/-- The text of plain metadata has no `=` after the separator, and does not end in it. -/
theorem Plain.no_tail {front : Bytes} {others : Metadata} (plain : Plain metadata)
    (text : metadataString metadata = front ++ keySeparator :: metadataString others)
    : False := by
  rcases plain with empty | ⟨name, value, single, -, inValue, inName, last⟩
  · rw [metadataString_nil empty] at text
    cases (List.append_eq_nil_iff.mp text.symm).2
  · rw [metadataString_single single] at text
    rcases List.append_eq_append_iff.mp text with ⟨gap, rfl, rest⟩ | ⟨gap, split, rest⟩
    · cases gap with
      | nil => cases (List.cons.inj rest).1
      | cons head tail =>
          have tailed : value = tail ++ keySeparator :: metadataString others :=
            (List.cons.inj rest).2
          rcases metadataString_nil_or others with empty | equals
          · refine last ?_
            rw [tailed, empty, List.getLast?_concat]
          · refine inValue ?_
            rw [tailed]
            exact List.mem_append_right _ (List.mem_cons_of_mem _ equals)
    · cases gap with
      | nil => cases (List.cons.inj rest).1
      | cons head tail =>
          obtain ⟨rfl, -⟩ := List.cons.inj rest
          exact inName (split ▸ List.mem_append_right _ List.mem_cons_self)

theorem Plain.unique {others : Metadata} (plain : Plain metadata)
    (text : metadataString others = metadataString metadata)
    : others.toList = metadata.toList := by
  have equals : (metadataString metadata).count (letter '=') ≤ 1 := by
    rcases plain with empty | ⟨name, value, single, inName, inValue, -, -⟩
    · rw [metadataString_nil empty]
      exact Nat.zero_le 1
    · rw [metadataString_single single, List.count_append, List.count_cons_self,
        List.count_eq_zero_of_not_mem inName, List.count_eq_zero_of_not_mem inValue]
  rcases entries : others.toList with - | ⟨⟨otherName, otherValue⟩, - | ⟨second, rest⟩⟩
  · rw [metadataString_nil entries] at text
    rcases plain with empty | ⟨name, value, single, -⟩
    · exact empty.symm
    · rw [metadataString_single single] at text
      cases (List.append_eq_nil_iff.mp text.symm).2
  · rw [metadataString_single entries] at text
    rw [← text, List.count_append, List.count_cons_self] at equals
    rcases plain with empty | ⟨name, value, single, inName, inValue, -, -⟩
    · rw [metadataString_nil empty] at text
      cases (List.append_eq_nil_iff.mp text).2
    · rw [metadataString_single single] at text
      have free : letter '=' ∉ otherName := List.count_eq_zero.mp (by omega)
      obtain ⟨rfl, rfl⟩ := split_unique free inName text
      exact single.symm
  · obtain ⟨front, back, other, split⟩ := metadataString_cons entries
    rw [← text, other, split] at equals
    simp only [List.count_append, List.count_cons, BEq.rfl, if_true] at equals
    omega

-- Taking keys apart

theorem key_eq (event : MetricEvent)
    : key event = event.direction ++ keySeparator :: (event.rpcName
        ++ keySeparator :: metadataString event.metadata) := by
  simp only [key, List.append_assoc, List.cons_append, List.nil_append]

/-- What an event is shown with. -/
def MetricEvent.labels (event : MetricEvent) : MetricLabels where
  direction := event.direction
  rpcName := event.rpcName
  metadata := metadataString event.metadata

theorem splitKey_joined (inDirection : keySeparator ∉ direction) (inName : keySeparator ∉ rpcName)
    (rest : Bytes)
    : splitKey (direction ++ keySeparator :: (rpcName ++ keySeparator :: rest))
      = { direction, rpcName, metadata := rest } := by
  simp only [splitKey, takeWhile_mark inDirection, dropWhile_mark inDirection,
    takeWhile_mark inName, dropWhile_mark inName]

/-- Neither of the first two labels has the separator in it. -/
theorem splitKey_free (text : Bytes)
    : keySeparator ∉ (splitKey text).direction ∧ keySeparator ∉ (splitKey text).rpcName := by
  simp only [splitKey]
  split
  · exact ⟨mark_notMem_takeWhile text, List.not_mem_nil⟩
  · split
    · exact ⟨mark_notMem_takeWhile text, mark_notMem_takeWhile _⟩
    · exact ⟨mark_notMem_takeWhile text, mark_notMem_takeWhile _⟩

theorem splitKey_key_iff
    : splitKey (key event) = event.labels
      ↔ keySeparator ∉ event.direction ∧ keySeparator ∉ event.rpcName := by
  constructor
  · intro split
    have free := splitKey_free (key event)
    rw [split] at free
    exact free
  · intro ⟨inDirection, inName⟩
    rw [key_eq, splitKey_joined inDirection inName]
    rfl

theorem key_of_splitKey (same : splitKey (key other) = splitKey (key event)) : key other = key event := by
  have joined (event : MetricEvent)
      : key event = (splitKey (key event)).direction ++ keySeparator
          :: ((splitKey (key event)).rpcName ++ keySeparator :: (splitKey (key event)).metadata) := by
    have marks : 2 ≤ (key event).count keySeparator := by
      simp only [key_eq, List.count_append, List.count_cons_self]
      omega
    obtain ⟨direction, rest, split, inDirection⟩ :=
      List.eq_append_cons_of_mem (List.count_pos_iff.mp (by omega : 0 < (key event).count keySeparator))
    rw [split, List.count_append, List.count_eq_zero_of_not_mem inDirection,
      List.count_cons_self] at marks
    obtain ⟨rpcName, metadata, rfl, inName⟩ :=
      List.eq_append_cons_of_mem (List.count_pos_iff.mp (by omega : 0 < rest.count keySeparator))
    rw [split, splitKey_joined inDirection inName]
  rw [joined other, joined event, same]

-- Events with the same key

/-- What tells events apart: the direction, the call and the entries of the metadata. -/
def MetricEvent.identity (event : MetricEvent) : Bytes × Bytes × List (Bytes × Bytes) :=
  (event.direction, event.rpcName, event.metadata.toList)

theorem key_eq_append (event : MetricEvent)
    : key event = (event.direction ++ keySeparator :: event.rpcName ++ [keySeparator])
        ++ metadataString event.metadata := by
  simp only [key, List.append_assoc, List.cons_append, List.nil_append]

/-- Where the metadata begins in a key is determined, when it is plain and nothing before it has the
separator in it.
-/
theorem key_split (plain : Plain event.metadata) (inDirection : keySeparator ∉ event.direction)
    (inName : keySeparator ∉ event.rpcName)
    (same : key other = key event)
    : other.direction ++ keySeparator :: other.rpcName
        = event.direction ++ keySeparator :: event.rpcName
      ∧ metadataString other.metadata = metadataString event.metadata := by
  rw [key_eq_append, key_eq_append] at same
  rcases List.append_eq_append_iff.mp same with ⟨gap, fronts, backs⟩ | ⟨gap, fronts, backs⟩
  · -- The event has two separators before its metadata, and the other event has them already.
    rcases List.eq_nil_or_concat gap with rfl | ⟨gap, last, rfl⟩
    · rw [List.append_nil] at fronts
      exact ⟨(List.append_inj' fronts rfl).1.symm, backs⟩
    · rw [List.concat_eq_append, ← List.append_assoc] at fronts
      obtain ⟨shorter, -⟩ := List.append_inj' fronts rfl
      have marks := congrArg (List.count keySeparator) shorter
      simp only [List.count_append, List.count_cons_self, List.count_nil,
        List.count_eq_zero_of_not_mem inDirection, List.count_eq_zero_of_not_mem inName] at marks
      omega
  · rcases List.eq_nil_or_concat gap with rfl | ⟨gap, last, rfl⟩
    · rw [List.append_nil] at fronts
      exact ⟨(List.append_inj' fronts rfl).1, backs.symm⟩
    · rw [List.concat_eq_append, ← List.append_assoc] at fronts
      obtain ⟨-, marked⟩ := List.append_inj' fronts rfl
      cases marked
      rw [List.concat_eq_append, List.append_assoc] at backs
      exact (plain.no_tail backs).elim

/-- An event with plain metadata, whose other labels are without the separator, shares its key only with
events like it.
-/
theorem identity_of_key (plain : Plain event.metadata) (inDirection : keySeparator ∉ event.direction)
    (inName : keySeparator ∉ event.rpcName) (same : key other = key event)
    : other.identity = event.identity := by
  obtain ⟨fronts, texts⟩ := key_split plain inDirection inName same
  have marks := congrArg (List.count keySeparator) fronts
  simp only [List.count_append, List.count_cons_self,
    List.count_eq_zero_of_not_mem inDirection, List.count_eq_zero_of_not_mem inName] at marks
  have free : keySeparator ∉ other.direction := List.count_eq_zero.mp (by omega)
  obtain ⟨directions, names⟩ := split_unique free inDirection fronts
  rw [MetricEvent.identity, directions, names, plain.unique texts, MetricEvent.identity]

/-- Nothing but the labels of the event gives its key. -/
structure Unmistakable (event : MetricEvent) : Prop where
  direction : keySeparator ∉ event.direction
  rpcName : keySeparator ∉ event.rpcName
  metadata : Plain event.metadata

theorem Unmistakable.key_iff (unmistakable : Unmistakable event)
    : key other = key event ↔ other.identity = event.identity := by
  constructor
  · exact identity_of_key unmistakable.metadata unmistakable.direction unmistakable.rpcName
  · intro same
    have ⟨directions, rest⟩ := Prod.mk.inj same
    have ⟨names, entries⟩ := Prod.mk.inj rest
    rw [key_eq, key_eq, directions, names, metadataString_eq, entries, ← metadataString_eq]

/-- Metadata that is not plain can be read in another way, or ends the name of the call. -/
theorem exists_mistaken (mixed : ¬Plain event.metadata)
    : ∃ other : MetricEvent, other.identity ≠ event.identity ∧ key other = key event := by
  rcases entries : event.metadata.toList with - | ⟨⟨name, value⟩, - | ⟨second, rest⟩⟩
  · exact absurd (.inl entries) mixed
  · have text := metadataString_single entries
    by_cases inName : letter '=' ∈ name
    · obtain ⟨front, back, rfl, -⟩ := List.eq_append_cons_of_mem inName
      refine ⟨{ event with metadata := singleton front (back ++ letter '=' :: value) }, ?_, ?_⟩
      · intro same
        have shorter := (Prod.mk.inj (Prod.mk.inj same).2).2
        simp [toList_singleton, entries] at shorter
      · rw [key_eq, key_eq, text, metadataString_singleton]
        simp only [List.append_assoc, List.cons_append]
    by_cases inValue : letter '=' ∈ value
    · obtain ⟨front, back, rfl, -⟩ := List.eq_append_cons_of_mem inValue
      refine ⟨{ event with metadata := singleton (name ++ letter '=' :: front) back }, ?_, ?_⟩
      · intro same
        have longer := (Prod.mk.inj (Prod.mk.inj same).2).2
        simp [toList_singleton, entries] at longer
      · rw [key_eq, key_eq, text, metadataString_singleton]
        simp only [List.append_assoc, List.cons_append]
    by_cases separates : keySeparator ∈ name
    · obtain ⟨front, back, rfl, -⟩ := List.eq_append_cons_of_mem separates
      refine ⟨{
        event with
        rpcName := event.rpcName ++ keySeparator :: front
        metadata := singleton back value
      }, ?_, ?_⟩
      · intro same
        have longer := (Prod.mk.inj (Prod.mk.inj same).2).1
        simp at longer
      · rw [key_eq, key_eq, text, metadataString_singleton]
        simp only [List.append_assoc, List.cons_append]
    by_cases last : value.getLast? = some keySeparator
    · obtain ⟨front, rfl⟩ := List.getLast?_eq_some_iff.mp last
      refine ⟨{
        event with
        rpcName := event.rpcName ++ keySeparator :: (name ++ letter '=' :: front)
        metadata := ∅
      }, ?_, ?_⟩
      · intro same
        have longer := (Prod.mk.inj (Prod.mk.inj same).2).1
        simp at longer
      · rw [key_eq, key_eq, text, metadataString_nil rfl]
        simp only [List.append_assoc, List.cons_append]
    exact absurd (.inr ⟨name, value, entries, inName, inValue, separates, last⟩) mixed
  · obtain ⟨front, back, text, -⟩ := metadataString_cons entries
    refine ⟨{ event with metadata := singleton name (value ++ front) }, ?_, ?_⟩
    · intro same
      have fewer := (Prod.mk.inj (Prod.mk.inj same).2).2
      simp [toList_singleton, entries] at fewer
    · rw [key_eq, key_eq, text, metadataString_singleton]

end Creek.Telemetry
