import Creek.Leaf.JsonRpcHttp

/-! HTTP requests in chunks: how much of an exchange depends on where the chunks end. -/

namespace Creek.Leaf.JsonRpcHttp

open Library (ascii)
open Tight (Bytes)

variable {handler : Bytes → HeaderMap → Option (Int × Bytes)} {data head buf : Bytes}
  {socket next : Socket} {position limit : Nat}

-- The terminator in a part of the data

theorem findTerminator_le (found : findTerminator data = some position)
    : position + 4 ≤ data.length := by
  fun_induction findTerminator data generalizing position with
  | case1 => cases found
  | case2 rest =>
      cases found
      simp
  | case3 byte rest other ih =>
      obtain ⟨earlier, first, rfl⟩ := Option.map_eq_some_iff.mp found
      have below := ih first
      rw [List.length_cons]
      omega

theorem findTerminator_append (found : findTerminator data = some position) (more : Bytes)
    : findTerminator (data ++ more) = some position := by
  fun_induction findTerminator data generalizing position with
  | case1 => cases found
  | case2 rest =>
      cases found
      rfl
  | case3 byte rest other ih =>
      obtain ⟨earlier, first, rfl⟩ := Option.map_eq_some_iff.mp found
      have below := findTerminator_le first
      rw [List.cons_append, findTerminator]
      · rw [ih first]
        rfl
      · rintro others rfl same
        match rest with
        | [] | [_] | [_, _] => simp at below
        | first :: second :: third :: rest =>
            simp only [List.cons_append, List.cons.injEq] at same
            obtain ⟨rfl, rfl, rfl, -⟩ := same
            exact other rest rfl rfl

theorem findTerminator_take_of_le (found : findTerminator data = some position) {count : Nat}
    (whole : position + 4 ≤ count)
    : findTerminator (data.take count) = some position := by
  fun_induction findTerminator data generalizing position count with
  | case1 => cases found
  | case2 rest =>
      cases found
      obtain ⟨more, rfl⟩ := Nat.exists_eq_add_of_le' whole
      rfl
  | case3 byte rest other ih =>
      obtain ⟨earlier, first, rfl⟩ := Option.map_eq_some_iff.mp found
      obtain ⟨count, rfl⟩ := Nat.exists_eq_add_of_le' (by omega : 1 ≤ count)
      rw [List.take_succ_cons, findTerminator]
      · rw [ih first (by omega)]
        rfl
      · rintro others rfl same
        have split := List.take_append_drop count rest
        rw [same] at split
        exact other _ rfl split.symm

/-- A terminator is found in a part of the data as soon as all of it is there. -/
theorem findTerminator_take (found : findTerminator data = some position) (count : Nat)
    : findTerminator (data.take count) = if position + 4 ≤ count then some position else none := by
  split
  · rename_i whole
    exact findTerminator_take_of_le found whole
  · rename_i missing
    rcases part : findTerminator (data.take count) with - | other
    · rfl
    · have same := findTerminator_append part (data.drop count)
      rw [List.take_append_drop, found] at same
      have inside := findTerminator_le part
      cases same
      simp only [List.length_take] at inside
      omega

-- The loops

theorem Socket.recv_append {room : Nat} {chunk : Bytes}
    (received : socket.recv room = some (chunk, next))
    : chunk ++ next.data = socket.data ∧ chunk.length ≤ max 1 room := by
  rw [recv] at received
  split at received
  · cases received
  · cases received
    refine ⟨List.take_append_drop _ _, ?_⟩
    simp only [List.length_take]
    omega

theorem Socket.recv_none {room : Nat} (received : socket.recv room = none) : socket.data = [] := by
  rw [recv] at received
  split at received
  · rename_i empty
    exact List.isEmpty_iff.mp empty
  · cases received

/-- What the loop over the headers returns is a part of the data with the terminator in it, and is
hardly longer than the limit.
-/
theorem recvUntil_some (returned : recvUntil limit socket buf = some (head, next))
    : head ++ next.data = buf ++ socket.data
      ∧ (findTerminator head).isSome
      ∧ (findTerminator buf = none → head.length < limit + kRecvChunk) := by
  fun_induction recvUntil limit socket buf with
  | case1 socket buf short received => cases returned
  | case2 socket buf short chunk next' received fewer buf' found =>
      obtain ⟨rfl, rfl⟩ : buf ++ chunk = head ∧ next' = next :=
        Prod.mk.inj (Option.some.inj returned)
      obtain ⟨whole, size⟩ := Socket.recv_append received
      refine ⟨by rw [List.append_assoc, whole], found, fun _ => ?_⟩
      rw [List.length_append]
      have room : max 1 kRecvChunk = kRecvChunk := rfl
      omega
  | case3 socket buf short chunk next' received fewer buf' missing ih =>
      obtain ⟨whole, found, size⟩ := ih returned
      obtain ⟨same, -⟩ := Socket.recv_append received
      refine ⟨by rw [whole, List.append_assoc, same], found, fun _ => size ?_⟩
      exact Option.not_isSome_iff_eq_none.mp missing
  | case4 socket buf long found =>
      cases returned
      refine ⟨rfl, found, fun absent => ?_⟩
      rw [absent] at found
      cases found
  | case5 socket buf long missing => cases returned

/-- The loop gives up only where the terminator does not end within the limit. -/
theorem recvUntil_none (returned : recvUntil limit socket buf = none)
    (found : findTerminator (buf ++ socket.data) = some position)
    : limit < position + 4 ∨ (findTerminator buf).isSome := by
  fun_induction recvUntil limit socket buf with
  | case1 socket buf short received =>
      rw [Socket.recv_none received, List.append_nil] at found
      rw [found]
      exact .inr rfl
  | case2 socket buf short chunk next' received fewer buf' there => cases returned
  | case3 socket buf short chunk next' received fewer buf' missing ih =>
      obtain ⟨same, -⟩ := Socket.recv_append received
      have later := ih returned (by rw [List.append_assoc, same]; exact found)
      exact .inl (later.resolve_right missing)
  | case4 socket buf long there => cases returned
  | case5 socket buf long missing =>
      left
      by_contra within
      have part := findTerminator_take_of_le found (by omega : position + 4 ≤ buf.length)
      rw [List.take_left] at part
      rw [part] at missing
      exact missing rfl

/-- A body is as many bytes as it is to have, from what there is. -/
theorem recvBody_eq {contentLength : Nat} {body : Bytes} (short : body.length ≤ contentLength)
    : recvBody contentLength socket body
      = if contentLength ≤ (body ++ socket.data).length then
          some ((body ++ socket.data).take contentLength)
        else none := by
  fun_induction recvBody contentLength socket body with
  | case1 socket body missing received =>
      rw [Socket.recv_none received, List.append_nil, if_neg (by omega)]
  | case2 socket body missing chunk next' received fewer ih =>
      obtain ⟨whole, size⟩ := Socket.recv_append received
      rw [ih ?_, List.append_assoc, whole]
      rw [List.length_append]
      omega
  | case3 socket body full =>
      have same : body.length = contentLength := by omega
      rw [if_pos (by rw [List.length_append]; omega), ← same, List.take_left]

theorem receiveBody_eq (contentLength : Nat) (prefixBody : Bytes) (socket : Socket)
    : receiveBody contentLength prefixBody socket
      = if contentLength ≤ (prefixBody ++ socket.data).length then
          some ((prefixBody ++ socket.data).take contentLength)
        else none := by
  rw [receiveBody]
  split
  · rename_i there
    rw [if_pos (by rw [List.length_append]; omega), List.take_append_of_le_length there]
  · rename_i missing
    exact recvBody_eq (by omega)

-- The exchange

/-- The exchange about some data as a whole, with the terminator at a position. -/
def exchangeOf (handler : Bytes → HeaderMap → Option (Int × Bytes)) (data : Bytes)
    (position : Nat)
    : Exchange :=
  let headerBlock := data.take (position + 4)
  let rest := data.drop (position + 4)
  match parseRequestLine headerBlock with
  | none => badRequest
  | some (method, path) =>
      serve handler headerBlock
        (fun length => if length ≤ rest.length then some (rest.take length) else none) method path

/-- The headers of a client are received, when its data comes in the given sizes. -/
def admits (data : Bytes) (sizes : Nat → Nat) : Bool :=
  (recvUntil kHeaderBufReserve { data, sizes } []).isSome

/-- Where the chunks end matters for the headers only, and there only for whether they are received.
-/
theorem handleClient_eq (found : findTerminator data = some position) (sizes : Nat → Nat)
    : handleClient handler { data, sizes }
      = if admits data sizes then exchangeOf handler data position else badRequest := by
  rw [handleClient, admits]
  rcases received : recvUntil kHeaderBufReserve { data, sizes } [] with - | ⟨head, next⟩
  · rfl
  · obtain ⟨whole, there, -⟩ := recvUntil_some received
    obtain ⟨other, part⟩ := Option.isSome_iff_exists.mp there
    have same : other = position := by
      have moved := findTerminator_append part next.data
      rw [whole, List.nil_append, found] at moved
      exact (Option.some.inj moved).symm
    subst same
    have inside := findTerminator_le part
    have block : head.take (other + 4) = data.take (other + 4) := by
      rw [← List.nil_append data, ← whole, List.take_append_of_le_length inside]
    have bodies : (fun length => receiveBody length (head.drop (other + 4)) next)
        = fun length =>
          if length ≤ (data.drop (other + 4)).length then
            some ((data.drop (other + 4)).take length)
          else none := by
      funext length
      rw [← List.nil_append data, ← whole, List.drop_append_of_le_length inside]
      exact receiveBody_eq length _ next
    rcases line : parseRequestLine (data.take (other + 4)) with - | ⟨method, path⟩
    · simp only [part, Option.isSome_some, if_true, exchangeOf, block, line]
    · simp only [part, Option.isSome_some, if_true, exchangeOf, block, bodies, line]

theorem handleClient_absent (absent : findTerminator data = none) (sizes : Nat → Nat)
    : handleClient handler { data, sizes } = badRequest := by
  rw [handleClient]
  rcases received : recvUntil kHeaderBufReserve { data, sizes } [] with - | ⟨head, next⟩
  · rfl
  · obtain ⟨whole, there, -⟩ := recvUntil_some received
    obtain ⟨other, part⟩ := Option.isSome_iff_exists.mp there
    have moved := findTerminator_append part next.data
    rw [whole, List.nil_append, absent] at moved
    cases moved

theorem admitted_of_short (found : findTerminator data = some position)
    (short : position + 4 ≤ kHeaderBufReserve) (sizes : Nat → Nat)
    : admits data sizes = true := by
  rw [admits, Option.isSome_iff_ne_none]
  intro refused
  rcases recvUntil_none refused found with long | there
  · omega
  · cases there

theorem length_of_admitted (found : findTerminator data = some position) {sizes : Nat → Nat}
    (admitted : admits data sizes = true)
    : position + 4 < kHeaderBufReserve + kRecvChunk := by
  obtain ⟨⟨head, next⟩, received⟩ := Option.isSome_iff_exists.mp admitted
  obtain ⟨whole, there, short⟩ := recvUntil_some received
  obtain ⟨other, part⟩ := Option.isSome_iff_exists.mp there
  have moved := findTerminator_append part next.data
  rw [whole, List.nil_append, found] at moved
  have inside := findTerminator_le part
  have size := short rfl
  cases moved
  omega

/-- A request line that is read never leads to the response for bad requests without a call. -/
theorem serve_ne_badRequest {headerBlock method path : Bytes} {receive : Nat → Option Bytes}
    : serve handler headerBlock receive method path ≠ badRequest := by
  have differs (status : Int) (reason body : Bytes)
      (other : responseText status reason body
        ≠ responseText 400 (ascii "Bad Request") (ascii "\x7b\"error\":\"bad request\"\x7d"))
      : refuse status reason body ≠ badRequest :=
    fun same => other (congrArg Exchange.sent same)
  rw [serve]
  split
  · exact differs _ _ _ (by decide)
  split
  · exact differs _ _ _ (by decide)
  split
  · exact differs _ _ _ (by decide)
  split
  · exact differs _ _ _ (by decide)
  split
  · exact differs _ _ _ (by decide)
  split
  · exact differs _ _ _ (by decide)
  split
  · exact differs _ _ _ (by decide)
  · intro same
    exact nomatch congrArg Exchange.called same

-- Chunks that make a difference

/-- One turn of the loop over the headers, with a part of the data received. -/
theorem recvUntil_step (found : findTerminator data = some position) (limit count : Nat)
    (short : count < limit) (more : count < data.length) (sizes : Nat → Nat)
    : recvUntil limit { data := data.drop count, sizes } (data.take count)
      = if position + 4 ≤ count + max 1 (min kRecvChunk (sizes 0)) then
          some (data.take (count + max 1 (min kRecvChunk (sizes 0))),
            { data := data.drop (count + max 1 (min kRecvChunk (sizes 0)))
              sizes := fun call => sizes (call + 1) })
        else
          recvUntil limit
            { data := data.drop (count + max 1 (min kRecvChunk (sizes 0)))
              sizes := fun call => sizes (call + 1) }
            (data.take (count + max 1 (min kRecvChunk (sizes 0)))) := by
  have length : (data.take count).length = count := by
    rw [List.length_take]
    omega
  have nonempty : (data.drop count).isEmpty = false := by
    rw [List.isEmpty_eq_false_iff, ← List.length_pos_iff, List.length_drop]
    omega
  rw [recvUntil, if_pos (by rw [length]; exact short)]
  split
  · rename_i received
    have none := Socket.recv_none received
    simp only at none
    rw [none] at nonempty
    cases nonempty
  · rename_i chunk next received
    simp only [Socket.recv, nonempty, Bool.false_eq_true, if_false, Option.some.injEq,
      Prod.mk.injEq] at received
    obtain ⟨rfl, rfl⟩ := received
    simp only [← List.take_add, List.drop_drop, findTerminator_take found]
    split <;> rfl

theorem recvUntil_full (found : findTerminator data = some position) (limit start turns : Nat)
    (short : start + 4096 * turns < limit + 4096) (before : start + 4096 * turns < position + 4)
    : recvUntil limit { data := data.drop start, sizes := fun _ => 4096 } (data.take start)
      = recvUntil limit { data := data.drop (start + 4096 * turns), sizes := fun _ => 4096 }
        (data.take (start + 4096 * turns)) := by
  induction turns with
  | zero => rfl
  | succ turns ih =>
      have size := findTerminator_le found
      have chunk : max 1 (min kRecvChunk 4096) = 4096 := rfl
      rw [ih (by omega) (by omega), recvUntil_step found limit (start + 4096 * turns) (by omega)
        (by omega), chunk, if_neg (by omega)]
      have next : start + 4096 * turns + 4096 = start + 4096 * (turns + 1) := by omega
      rw [next]

theorem not_admits_full (found : findTerminator data = some position)
    (long : kHeaderBufReserve < position + 4)
    : admits data (fun _ => 4096) = false := by
  have size := findTerminator_le found
  have limit : kHeaderBufReserve = 16384 := rfl
  have reached := recvUntil_full found kHeaderBufReserve 0 4 (by omega) (by omega)
  rw [List.drop_zero, List.take_zero] at reached
  have length : (data.take (0 + 4096 * 4)).length = 16384 := by
    rw [List.length_take]
    omega
  have missing : findTerminator (data.take (0 + 4096 * 4)) = none := by
    rw [findTerminator_take found, if_neg (by omega)]
  rw [admits, reached, recvUntil, if_neg (by omega), missing]
  rfl

/-- A first chunk that is one byte short of a full one. -/
def lateSizes : Nat → Nat
  | 0 => 4095
  | _ + 1 => 4096

/-- After it, one more full chunk is received under the limit. -/
theorem admits_late (found : findTerminator data = some position)
    (long : kHeaderBufReserve < position + 4)
    (short : position + 4 < kHeaderBufReserve + kRecvChunk)
    : admits data lateSizes = true := by
  have size := findTerminator_le found
  have limit : kHeaderBufReserve = 16384 := rfl
  have room : kRecvChunk = 4096 := rfl
  have begun := recvUntil_step found kHeaderBufReserve 0 (by omega) (by omega) lateSizes
  have later := recvUntil_full found kHeaderBufReserve 4095 3 (by omega) (by omega)
  have last := recvUntil_step found kHeaderBufReserve (4095 + 4096 * 3) (by omega) (by omega)
    fun _ => 4096
  have firstChunk : max 1 (min kRecvChunk (lateSizes 0)) = 4095 := rfl
  have fullChunk : max 1 (min kRecvChunk 4096) = 4096 := rfl
  rw [firstChunk, if_neg (by omega), List.drop_zero, List.take_zero] at begun
  rw [fullChunk, if_pos (by omega)] at last
  have whole := begun.trans (later.trans last)
  rw [admits, whole]
  rfl

-- Independence of the chunks

/-- The same response and the same call, or none, for any two ways in which the data comes. -/
def Independent (handler : Bytes → HeaderMap → Option (Int × Bytes)) (data : Bytes) : Prop :=
  ∀ sizes others, handleClient handler { data, sizes } = handleClient handler { data, sizes := others }

/-- The headers end behind the limit, but less than a chunk behind it. -/
def Overhangs (data : Bytes) (position : Nat) : Prop :=
  findTerminator data = some position ∧ kHeaderBufReserve < position + 4
    ∧ position + 4 < kHeaderBufReserve + kRecvChunk

theorem differs_of_overhangs (overhangs : Overhangs data position) {method path : Bytes}
    (line : parseRequestLine (data.take (position + 4)) = some (method, path))
    : ¬Independent handler data := by
  obtain ⟨found, long, short⟩ := overhangs
  intro same
  have chunks := same lateSizes fun _ => 4096
  rw [handleClient_eq found, handleClient_eq found, admits_late found long short,
    not_admits_full found long] at chunks
  simp only [if_true, Bool.false_eq_true, if_false, exchangeOf, line] at chunks
  exact serve_ne_badRequest chunks

/-- Where chunks end makes no difference exactly when the headers do not end less than a chunk behind
the limit, or have no request line.
-/
theorem independent_iff (handler : Bytes → HeaderMap → Option (Int × Bytes)) (data : Bytes)
    : Independent handler data
      ↔ ∀ position, Overhangs data position → parseRequestLine (data.take (position + 4)) = none := by
  constructor
  · intro same position overhangs
    rcases line : parseRequestLine (data.take (position + 4)) with - | ⟨method, path⟩
    · rfl
    · exact absurd same (differs_of_overhangs overhangs line)
  · intro harmless sizes others
    rcases found : findTerminator data with - | position
    · rw [handleClient_absent found, handleClient_absent found]
    rw [handleClient_eq found, handleClient_eq found]
    by_cases short : position + 4 ≤ kHeaderBufReserve
    · rw [admitted_of_short found short, admitted_of_short found short]
    by_cases overhang : position + 4 < kHeaderBufReserve + kRecvChunk
    · have none := harmless position ⟨found, by omega, overhang⟩
      have bad : exchangeOf handler data position = badRequest := by
        simp only [exchangeOf, none]
      rw [bad, ite_self, ite_self]
    · have refused (sizes : Nat → Nat) : admits data sizes = false :=
        Bool.eq_false_iff.mpr fun admitted => overhang (length_of_admitted found admitted)
      rw [refused, refused]

-- A request for the health of the server, with a header of 16384 letters.

theorem findTerminator_letters (count : Nat) (rest : Bytes)
    : findTerminator (List.replicate count 97 ++ rest)
      = (findTerminator rest).map (· + count) := by
  induction count with
  | zero => simp
  | succ count ih =>
      rw [List.replicate_succ, List.cons_append, findTerminator, ih, Option.map_map]
      · rfl
      · intro _ other
        cases other

theorem splitLines_ne_nil (text : Bytes) : splitLines text ≠ [] := by
  fun_cases splitLines text <;> simp_all

def healthRequest (letters : Nat) : Bytes :=
  ascii "GET /healthz \r\n" ++ (List.replicate letters 97 ++ ascii "\r\n\r\n")

theorem healthRequest_eq (letters : Nat)
    : healthRequest (letters + 1)
      = [71, 69, 84, 32, 47, 104, 101, 97, 108, 116, 104, 122, 32, 13, 10]
        ++ 97 :: (List.replicate letters 97 ++ [13, 10, 13, 10]) := by
  have line : ascii "GET /healthz \r\n"
      = [71, 69, 84, 32, 47, 104, 101, 97, 108, 116, 104, 122, 32, 13, 10] := by decide
  have closing : ascii "\r\n\r\n" = [13, 10, 13, 10] := by decide
  rw [healthRequest, line, closing, List.replicate_succ]
  rfl

theorem findTerminator_healthRequest (letters : Nat)
    : findTerminator (healthRequest (letters + 1)) = some (letters + 16) := by
  have closing : findTerminator [13, 10, 13, 10] = some 0 := by decide
  rw [healthRequest_eq]
  simp [findTerminator, findTerminator_letters, closing]

theorem parseRequestLine_healthRequest {letters count : Nat} (enough : 16 ≤ count)
    : parseRequestLine ((healthRequest (letters + 1)).take count)
      = some (ascii "GET", ascii "/healthz") := by
  obtain ⟨more, rfl⟩ := Nat.exists_eq_add_of_le' enough
  rw [healthRequest_eq]
  obtain ⟨line, lines, same⟩ := List.exists_cons_of_ne_nil
    (splitLines_ne_nil (97 :: (List.replicate letters 97 ++ [13, 10, 13, 10] : Bytes).take more))
  have method : ascii "GET" = [71, 69, 84] := by decide
  have path : ascii "/healthz" = [47, 104, 101, 97, 108, 116, 104, 122] := by decide
  simp [parseRequestLine, splitLines, same, method, path]

/-- Which chunks the request comes in decides whether it is served. -/
theorem chunks_decide : ¬Independent (fun _ _ => none) (healthRequest 16384) := by
  have found : findTerminator (healthRequest 16384) = some 16399 := findTerminator_healthRequest 16383
  refine differs_of_overhangs ⟨found, by decide, by decide⟩ (parseRequestLine_healthRequest ?_)
  decide

end Creek.Leaf.JsonRpcHttp
