import Creek.Tight.Fec

/-! The shape of a decoded message: every gap is filled and nothing else changes. -/

namespace Creek.Tight.ReedSolomon

theorem mem_missing {data : List (Option Bytes)} {i : Nat}
    : i ∈ missing data ↔ data[i]? = some none := by
  simp only [missing, List.mem_filter, List.mem_range, List.getD_eq_getElem?_getD]
  cases found : data[i]? with
  | none => simp [List.getElem?_eq_none_iff.mp found]
  | some fragment =>
      have bound := (List.getElem?_eq_some_iff.mp found).1
      cases fragment <;> simp [bound]

theorem nodup_missing (data : List (Option Bytes)) : (missing data).Nodup :=
  List.nodup_range.filter _

theorem length_swapRows (rows : List Row) (i j : Nat)
    : (swapRows rows i j).length = rows.length := by
  simp [swapRows]

theorem length_eliminateColumn {rows result : List Row} {col width : Nat}
    (eliminated : eliminateColumn rows col width = some result)
    : result.length = rows.length := by
  rw [eliminateColumn] at eliminated
  split at eliminated
  · cases eliminated
  · obtain rfl := Option.some.inj eliminated
    rw [List.length_mapIdx, length_swapRows]

@[inherit_doc length_eliminateColumn]
theorem length_eliminate {rows result : List Row} {width cols : Nat}
    (eliminated : eliminate rows width cols = some result)
    : result.length = rows.length := by
  induction cols generalizing result with
  | zero =>
      obtain rfl := Option.some.inj eliminated
      rfl
  | succ cols ih =>
      obtain ⟨before, first, last⟩ := Option.bind_eq_some_iff.mp eliminated
      rw [length_eliminateColumn last, ih first]

theorem length_fill (data : List (Option Bytes)) (fills : List (Nat × Row))
    : (fills.foldl (fun data gap => data.set gap.1 (some gap.2.syn)) data).length
      = data.length := by
  induction fills generalizing data with
  | nil => rfl
  | cons fill rest ih => rw [List.foldl_cons, ih, List.length_set]

theorem fill_of_not_mem {data : List (Option Bytes)} {fills : List (Nat × Row)} {i : Nat}
    (absent : i ∉ fills.map Prod.fst)
    : (fills.foldl (fun data gap => data.set gap.1 (some gap.2.syn)) data)[i]? = data[i]? := by
  induction fills generalizing data with
  | nil => rfl
  | cons fill rest ih =>
      rw [List.map_cons, List.mem_cons, not_or] at absent
      rw [List.foldl_cons, ih absent.2, List.getElem?_set_ne (Ne.symm absent.1)]

theorem fill_of_mem {data : List (Option Bytes)} {fills : List (Nat × Row)} {i : Nat} {row : Row}
    (bound : i < data.length) (unique : (fills.map Prod.fst).Nodup) (member : (i, row) ∈ fills)
    : (fills.foldl (fun data gap => data.set gap.1 (some gap.2.syn)) data)[i]?
      = some (some row.syn) := by
  induction fills generalizing data with
  | nil => cases member
  | cons fill rest ih =>
      rw [List.map_cons, List.nodup_cons] at unique
      rw [List.foldl_cons]
      rcases List.mem_cons.mp member with rfl | later
      · rw [fill_of_not_mem unique.1, List.getElem?_set_self bound]
      · exact ih (by rw [List.length_set]; exact bound) unique.2 later

theorem getElem_mem_zip {gaps : List Nat} {rows : List Row} {position : Nat}
    (inGaps : position < gaps.length) (inRows : position < rows.length)
    : (gaps[position], rows[position]) ∈ gaps.zip rows := by
  have inZip : position < (gaps.zip rows).length := by
    rw [List.length_zip]
    omega
  have pair := List.getElem_mem inZip
  rwa [List.getElem_zip] at pair

/-- A successful decoding comes from an elimination with one equation for each gap. -/
theorem decode_eq_some {data result : List (Option Bytes)} {parity : List (Nat × Bytes)}
    {width : Nat} (decoded : decode data parity width = some result)
    (gaps : missing data ≠ [])
    : (missing data).length ≤ parity.length
      ∧ ∃ rows,
          eliminate
              ((parity.take (missing data).length).map fun p => equation data p width) width
              (missing data).length
            = some rows
          ∧ rows.length = (missing data).length
          ∧ result = ((missing data).zip rows).foldl
              (fun data gap => data.set gap.1 (some gap.2.syn)) data := by
  rw [decode, if_neg (by simpa using gaps)] at decoded
  split at decoded
  · cases decoded
  rename_i enough
  obtain ⟨rows, eliminated, rfl⟩ := Option.map_eq_some_iff.mp decoded
  refine ⟨Nat.le_of_not_lt enough, rows, eliminated, ?_, rfl⟩
  rw [length_eliminate eliminated, List.length_map, List.length_take]
  omega

theorem length_decode {data result : List (Option Bytes)} {parity : List (Nat × Bytes)}
    {width : Nat} (decoded : decode data parity width = some result)
    : result.length = data.length := by
  by_cases gaps : missing data = []
  · rw [decode, gaps] at decoded
    obtain rfl := Option.some.inj decoded
    rfl
  · obtain ⟨-, rows, -, -, rfl⟩ := decode_eq_some decoded gaps
    exact length_fill _ _

theorem decode_isSome {data result : List (Option Bytes)} {parity : List (Nat × Bytes)}
    {width i : Nat} (decoded : decode data parity width = some result) (bound : i < data.length)
    : ∃ fragment, result[i]? = some (some fragment) := by
  by_cases gap : i ∈ missing data
  · have gaps : missing data ≠ [] := List.ne_nil_of_mem gap
    obtain ⟨-, rows, -, length, rfl⟩ := decode_eq_some decoded gaps
    obtain ⟨position, inRange, rfl⟩ := List.mem_iff_getElem.mp gap
    have inRows : position < rows.length := by omega
    have keys : ((missing data).zip rows).map Prod.fst = missing data :=
      List.map_fst_zip (by omega)
    have member := getElem_mem_zip inRange inRows
    have unique : (((missing data).zip rows).map Prod.fst).Nodup := by
      rw [keys]
      exact nodup_missing data
    exact ⟨_, fill_of_mem bound unique member⟩
  · have kept : result[i]? = data[i]? := by
      by_cases gaps : missing data = []
      · rw [decode, gaps] at decoded
        obtain rfl := Option.some.inj decoded
        rfl
      · obtain ⟨-, rows, -, length, rfl⟩ := decode_eq_some decoded gaps
        exact fill_of_not_mem (by rwa [List.map_fst_zip (by omega)])
    rw [mem_missing, List.getElem?_eq_getElem bound] at gap
    rw [kept, List.getElem?_eq_getElem bound]
    cases here : data[i] with
    | none => exact absurd (congrArg some here) gap
    | some fragment => exact ⟨fragment, rfl⟩

/-- A single gap is not restored from a parity fragment that gives it no weight. -/
theorem decode_eq_none {data : List (Option Bytes)} {parity : List (Nat × Bytes)}
    {width gap p : Nat} {fragment : Bytes} (gaps : missing data = [gap])
    (first : parity = [(p, fragment)]) (weightless : coef p gap = 0)
    : decode data parity width = none := by
  have row : entry [equation data (p, fragment) width] 0 0 = 0 := by
    rw [entry, equation]
    simp [gaps, weightless]
  have stuck : eliminateColumn [equation data (p, fragment) width] 0 width = none := by
    rw [eliminateColumn]
    simp [row]
  rw [decode, first, gaps]
  exact congrArg (Option.map _) stuck

end Creek.Tight.ReedSolomon
