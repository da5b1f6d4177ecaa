import Creek.Leaf.JsonRpc
import Creek.Proofs.Telemetry.MetricsJson

/-! What a client reads from the response to a JSON-RPC request. -/

namespace Creek.Leaf

open Library
open Library.Json (Entry Reads isPlain)
open Mesh (Metadata)
open Telemetry (Draw escapes_json escapeJsonString)
open Tight (Bytes)

-- The library

/-- The member of a name; of members with one name the last one counts. -/
def lastMember (name : Bytes) : Json → Option Json
  | .object members => members.reverse.lookup name
  | _ => none

/-- What the documentation of the library says, given which values of JSON a value of the library stands
for (how numbers are rounded is left open): a document that is parsed is read as what it says, what is
printed is a document of the value, and the accessors find what is there.
-/
structure JsonLibrary.Lawful (library : JsonLibrary) (means : library.Value → Json → Prop) : Prop where
  parse {body : Bytes} {json : Json} {value : library.Value}
    : Json.decode body = some json → library.parse body = .ok value → means value json
  dump {value : library.Value} {text : Bytes}
    : library.dump value = .ok text → ∃ json, Json.decode text = some json ∧ means value json
  member {value : library.Value} {json : Json} (name : Bytes)
    : means value json → Option.Rel means (library.member? name value) (lastMember name json)
  readString {value : library.Value} {json : Json} {text : Bytes}
    : means value json → (library.string? value = some text ↔ json = .string text)
  string (text : Bytes) : library.string? (library.string text) = some text
  object {members : List (Bytes × library.Value)} {json : Json} (name : Bytes)
    : (members.map Prod.fst).Nodup → means (library.object members) json
      → Option.Rel means (members.lookup name) (lastMember name json)

variable {library : JsonLibrary} {means : library.Value → Json → Prop} {draw : Draw}
  {invokeForHello : HelloRequest → Metadata → Status × HelloReply} {body text : Bytes}
  {headers : Metadata} {request : library.Value} {members : List (Bytes × library.Value)} {json : Json}

theorem JsonLibrary.Lawful.means_string (lawful : library.Lawful means)
    (meant : means (library.string text) json)
    : json = .string text :=
  (lawful.readString meant).mp (lawful.string text)

/-- What is printed for a string is not that string: there are quotes around it. -/
theorem JsonLibrary.Lawful.dump_ne (lawful : library.Lawful means) {value : library.Value}
    {string : Bytes} (meant : means value (.string string)) (printed : library.dump value = .ok text)
    : text ≠ string := by
  obtain ⟨json, decoded, same⟩ := lawful.dump printed
  have read : json = .string string :=
    (lawful.readString same).mp ((lawful.readString meant).mpr rfl)
  rw [read] at decoded
  have shorter := Json.length_lt_of_decode decoded
  rintro rfl
  exact Nat.lt_irrefl _ shorter

-- The response as it is read

/-- An object with the version and with a result or an error. -/
structure IsResponse (response : Json) : Prop where
  version : lastMember (ascii "jsonrpc") response = some (.string (ascii "2.0"))
  one : (lastMember (ascii "result") response).isSome ≠ (lastMember (ascii "error") response).isSome

/-- The same of the members that a response is built from. -/
structure Builds (library : JsonLibrary) (members : List (Bytes × library.Value)) : Prop where
  distinct : (members.map Prod.fst).Nodup
  version : members.lookup (ascii "jsonrpc") = some (library.string (ascii "2.0"))
  one : (members.lookup (ascii "result")).isSome ≠ (members.lookup (ascii "error")).isSome

theorem Builds.error (code : Int) (message : Bytes)
    : Builds library [versionMember library, errorMember library code message] where
  distinct := (by decide : [ascii "jsonrpc", ascii "error"].Nodup)
  version := rfl
  one := by
    rw [show List.lookup (ascii "result") [versionMember library, errorMember library code message]
        = none from rfl]
    exact Bool.false_ne_true

theorem Builds.answered_error (id : Bytes) (code : Int) (message : Bytes)
    : Builds library ([versionMember library, idMember library id] ++ [errorMember library code message])
    where
  distinct := (by decide : [ascii "jsonrpc", ascii "id", ascii "error"].Nodup)
  version := rfl
  one := by
    rw [show List.lookup (ascii "result")
        ([versionMember library, idMember library id] ++ [errorMember library code message])
        = none from rfl]
    exact Bool.false_ne_true

theorem Builds.answered_result (id : Bytes) (reply : HelloReply)
    : Builds library ([versionMember library, idMember library id] ++ [resultMember library reply]) where
  distinct := (by decide : [ascii "jsonrpc", ascii "id", ascii "result"].Nodup)
  version := rfl
  one := by
    rw [show List.lookup (ascii "error")
        ([versionMember library, idMember library id] ++ [resultMember library reply])
        = none from rfl]
    exact Bool.false_ne_true.symm

/-- Each of the exits of an answer builds a response whose id is a string, the text of the id. -/
theorem answer_builds (answered : answer library draw invokeForHello request headers = .ok members)
    : Builds library members
      ∧ ∃ id, idText library request = .ok id
        ∧ members.lookup (ascii "id") = some (library.string id) := by
  rw [answer] at answered
  rcases printed : idText library request with error | id
  · rw [printed] at answered
    cases answered
  rw [printed] at answered
  simp only [bind, Except.bind, pure, Except.pure] at answered
  split at answered
  · cases answered
    exact ⟨.answered_error id _ _, id, rfl, rfl⟩
  split at answered
  · cases answered
    exact ⟨.answered_error id _ _, id, rfl, rfl⟩
  split at answered
  · cases answered
  split at answered
  · cases answered
    exact ⟨.answered_result id _, id, rfl, rfl⟩
  · cases answered
    exact ⟨.answered_error id _ _, id, rfl, rfl⟩

/-- A string among the members of a response is read as that string. -/
theorem JsonLibrary.Lawful.reads_string (lawful : library.Lawful means) (builds : Builds library members)
    (meant : means (library.object members) json) {name : Bytes}
    (listed : members.lookup name = some (library.string text))
    : lastMember name json = some (.string text) := by
  have related := lawful.object name builds.distinct meant
  rw [listed] at related
  generalize lastMember name json = found at related
  cases related with
  | some string => rw [lawful.means_string string]

theorem JsonLibrary.Lawful.isResponse (lawful : library.Lawful means) (builds : Builds library members)
    (meant : means (library.object members) json)
    : IsResponse json where
  version := lawful.reads_string builds meant builds.version
  one := by
    have same (name : Bytes) : (lastMember name json).isSome = (members.lookup name).isSome := by
      have related := lawful.object name builds.distinct meant
      generalize lastMember name json = found at related ⊢
      generalize members.lookup name = listed at related ⊢
      cases related <;> rfl
    rw [same, same]
    exact builds.one

-- The id

/-- The id of a request, or null where there is none. -/
def requestId (request : Json) : Json := (lastMember (ascii "id") request).getD .null

/-- A normal return with a JSON-RPC 2.0 object that has exactly one of result and error, and the id of
the request.
-/
def Answers (request : Json) (returned : Except Bytes (Int × Bytes)) : Prop :=
  ∃ status text response, returned = .ok (status, text)
    ∧ Json.decode text = some response
    ∧ IsResponse response
    ∧ lastMember (ascii "id") response = some (requestId request)

/-- The id is never the one of the request: a string is put for it, and for a string that string in
quotes.
-/
theorem idText_ne (lawful : library.Lawful means) (meant : means request json)
    (printed : idText library request = .ok text)
    : requestId json ≠ .string text := by
  intro same
  have related := lawful.member (ascii "id") meant
  rw [requestId] at same
  rw [idText] at printed
  generalize lastMember (ascii "id") json = found at related same
  generalize library.member? (ascii "id") request = held at related printed
  cases related with
  | none => cases same
  | some string =>
      rw [Option.getD_some] at same
      rw [same] at string
      exact lawful.dump_ne string printed rfl

/-- What is read of a response: that of a request that is not parsed has no id. -/
theorem response_reads (lawful : library.Lawful means) {status : Int}
    (returned : handleJsonRpc library draw invokeForHello body headers = .ok (status, text))
    : ∃ response, Json.decode text = some response
      ∧ IsResponse response
      ∧ ((∃ request id, library.parse body = .ok request ∧ idText library request = .ok id
          ∧ lastMember (ascii "id") response = some (.string id))
        ∨ (∃ what, library.parse body = .error what) ∧ lastMember (ascii "id") response = none) := by
  rw [handleJsonRpc] at returned
  rcases parsed : library.parse body with what | request
  · rw [parsed] at returned
    simp only [bind, Except.bind, pure, Except.pure] at returned
    split at returned
    · cases returned
    rename_i text dumped
    cases returned
    obtain ⟨response, decoded, meant⟩ := lawful.dump dumped
    have builds := @Builds.error library (-32700) (ascii "parse error: " ++ what)
    refine ⟨response, decoded, lawful.isResponse builds meant, .inr ⟨⟨what, rfl⟩, ?_⟩⟩
    have related := lawful.object (ascii "id") builds.distinct meant
    generalize lastMember (ascii "id") response = found at related ⊢
    cases related
    rfl
  · rw [parsed] at returned
    simp only [bind, Except.bind, pure, Except.pure] at returned
    split at returned
    · cases returned
    rename_i members answered
    split at returned
    · cases returned
    rename_i text dumped
    cases returned
    obtain ⟨builds, id, printed, listed⟩ := answer_builds answered
    obtain ⟨response, decoded, meant⟩ := lawful.dump dumped
    exact ⟨response, decoded, lawful.isResponse builds meant,
      .inl ⟨request, id, rfl, printed, lawful.reads_string builds meant listed⟩⟩

theorem response_id_ne (lawful : library.Lawful means) (document : Json.decode body = some json)
    {status : Int} {response : Json}
    (returned : handleJsonRpc library draw invokeForHello body headers = .ok (status, text))
    (read : Json.decode text = some response)
    : lastMember (ascii "id") response ≠ some (requestId json) := by
  intro id
  obtain ⟨other, decoded, -, ids⟩ := response_reads lawful returned
  rw [read] at decoded
  cases decoded
  rcases ids with ⟨request, text, parsed, printed, found⟩ | ⟨-, none⟩
  · rw [id] at found
    exact idText_ne lawful (lawful.parse document parsed) printed (Option.some.inj found)
  · rw [id] at none
    cases none

/-- No body that is JSON is answered with the id that it has. -/
theorem never_answers (lawful : library.Lawful means) (document : Json.decode body = some json)
    : ¬Answers json (handleJsonRpc library draw invokeForHello body headers) := by
  rintro ⟨status, text, response, returned, read, -, id⟩
  exact response_id_ne lawful document returned read id

-- A library

mutual

/-- The text of a value of strings, whole numbers and objects whose names need no escapes. -/
def printed : Json → Except Bytes Bytes
  | .string text => .ok (34 :: (escapeJsonString text ++ [34]))
  | .number value => if value.den = 1 then .ok (signedDecimal value.num) else .error []
  | .object members => do
      let texts ← printedMembers members
      return 123 :: ([44].intercalate texts ++ [125])
  | _ => .error []

def printedMembers : List (Bytes × Json) → Except Bytes (List Bytes)
  | [] => .ok []
  | (name, value) :: members =>
      if name.all isPlain then do
        let text ← printed value
        let texts ← printedMembers members
        return (34 :: (name ++ 34 :: 58 :: text)) :: texts
      else .error []

end

mutual

theorem reads_printed : ∀ {value : Json} {text : Bytes}, printed value = .ok text → Reads text value
  | .string string, text, done => by
      rw [printed] at done
      cases done
      exact escapes_json.reads string
  | .number value, text, done => by
      rw [printed] at done
      split at done
      · rename_i whole
        cases done
        have reads := Reads.signedNumber value.num
        rwa [Rat.coe_int_num_of_den_eq_one whole] at reads
      · cases done
  | .object members, text, done => by
      rw [printed] at done
      rcases inside : printedMembers members with error | texts
      · rw [inside] at done
        cases done
      · rw [inside] at done
        cases done
        exact .object (entries_printedMembers inside)
  | .null, _, done => by
      rw [printed] at done
      · cases done
      all_goals nofun
  | .bool _, _, done => by
      rw [printed] at done
      · cases done
      all_goals nofun
  | .array _, _, done => by
      rw [printed] at done
      · cases done
      all_goals nofun

theorem entries_printedMembers : ∀ {members : List (Bytes × Json)} {texts : List Bytes},
    printedMembers members = .ok texts → List.Forall₂ Entry texts members
  | [], texts, done => by
      rw [printedMembers] at done
      cases done
      exact .nil
  | (name, value) :: members, texts, done => by
      rw [printedMembers] at done
      split at done
      · rename_i plain
        rcases first : printed value with error | text
        · rw [first] at done
          cases done
        rcases rest : printedMembers members with error | others
        · rw [first, rest] at done
          cases done
        rw [first, rest] at done
        cases done
        exact .cons (.intro plain (reads_printed first)) (entries_printedMembers rest)
      · cases done

end

/-- A library whose values are those of JSON. It prints the members of an object by their names. -/
def plainLibrary : JsonLibrary where
  Value := Json
  parse body :=
    match Json.decode body with
    | some json => .ok json
    | none => .error (ascii "parse error")
  dump := printed
  object members := .object (members.insertionSort fun a b => (compare a.1 b.1).isLE)
  string := .string
  integer number := .number number
  member? := lastMember
  members?
    | .object members => some members
    | _ => none
  string?
    | .string text => some text
    | _ => none
  boolean?
    | .bool value => some value
    | _ => none
  valueOr value name default :=
    match value with
    | .object _ => .ok ((lastMember name value).getD default)
    | _ => .error (ascii "type_error.306")
  stringOr value name default :=
    match value, lastMember name value with
    | .object _, none => .ok default
    | .object _, some (.string text) => .ok text
    | .object _, some _ => .error (ascii "type_error.302")
    | _, _ => .error (ascii "type_error.306")

/-- Among members with different names a name has the value it is listed with. -/
theorem lookup_eq_some_iff_mem {α : Type} {members : List (Bytes × α)}
    (distinct : (members.map Prod.fst).Nodup) {name : Bytes} {value : α}
    : members.lookup name = some value ↔ (name, value) ∈ members := by
  induction members with
  | nil => simp
  | cons member members ih =>
      obtain ⟨other, held⟩ := member
      rw [List.map_cons, List.nodup_cons] at distinct
      rw [List.lookup_cons, List.mem_cons, ← ih distinct.2]
      by_cases same : name = other
      · subst same
        have unlisted : members.lookup name = none := by
          refine List.lookup_eq_none_iff.mpr fun pair member => bne_iff_ne.mpr fun eq => distinct.1 ?_
          exact List.mem_map.mpr ⟨pair, member, eq.symm⟩
        simp [unlisted, eq_comm]
      · simp [beq_false_of_ne same, same]

theorem relates_self {α : Type} (found : Option α) : Option.Rel (· = ·) found found := by
  cases found with
  | none => exact .none
  | some value => exact .some rfl

theorem plainLibrary_lawful : plainLibrary.Lawful (· = ·) where
  parse := by
    intro body json value document parsed
    simp only [plainLibrary, document] at parsed
    exact (Except.ok.inj parsed).symm
  dump := fun done => ⟨_, (reads_printed done).decode, rfl⟩
  member := by
    rintro value _ name rfl
    exact relates_self (lastMember name value)
  readString := by
    rintro value _ text rfl
    cases value <;> simp [plainLibrary]
  string := fun _ => rfl
  object := by
    rintro members _ name distinct rfl
    have sorted := members.perm_insertionSort fun a b => (compare a.1 b.1).isLE
    have same : members.lookup name = (members.insertionSort fun a b =>
        (compare a.1 b.1).isLE).reverse.lookup name := by
      have again := (List.reverse_perm _).trans sorted
      refine Option.ext fun value => ?_
      rw [lookup_eq_some_iff_mem distinct,
        lookup_eq_some_iff_mem ((again.map Prod.fst).nodup_iff.mpr distinct), again.mem_iff]
    exact cast (congrArg (Option.Rel _ _) same) (relates_self (members.lookup name))

theorem decode_sample
    : Json.decode (ascii "\x7b\"id\":\"1\"\x7d")
      = some (.object [(ascii "id", .string (ascii "1"))]) := by
  have reads := Reads.object (.cons (.intro (by decide : (ascii "id").all isPlain = true)
    (Telemetry.reads_plain (by decide : (ascii "1").all isPlain = true))) .nil)
  exact (reads.of_eq (by decide)).decode

/-- A request with the id `"1"` and without a method: the response has the id `"\"1\""`. -/
theorem never_answers_sample
    : handleJsonRpc plainLibrary ⟨.replicate 16 0, .replicate 8 0, .replicate 8 0⟩
        (fun _ _ => ({}, {})) (ascii "\x7b\"id\":\"1\"\x7d") ∅
      = .ok (200,
          ascii "\x7b\"error\":\x7b\"code\":-32600,\"message\":\"invalid request\"\x7d,"
            ++ ascii "\"id\":\"\\\"1\\\"\",\"jsonrpc\":\"2.0\"\x7d")
      ∧ ¬Answers (.object [(ascii "id", .string (ascii "1"))])
        (handleJsonRpc plainLibrary ⟨.replicate 16 0, .replicate 8 0, .replicate 8 0⟩
          (fun _ _ => ({}, {})) (ascii "\x7b\"id\":\"1\"\x7d") ∅) :=
  ⟨by decide +kernel, never_answers plainLibrary_lawful decode_sample⟩

/-- The response to that request has another id. -/
theorem id_quoted
    : ¬∀ (library : JsonLibrary) (means : library.Value → Json → Prop) (draw : Draw)
        (invokeForHello : HelloRequest → Metadata → Status × HelloReply) (body : Bytes)
        (headers : Metadata) (json : Json),
        library.Lawful means → Json.decode body = some json
          → Answers json (handleJsonRpc library draw invokeForHello body headers) := by
  intro always
  obtain ⟨status, text, response, returned, read, -, id⟩ := always plainLibrary (· = ·)
    ⟨.replicate 16 0, .replicate 8 0, .replicate 8 0⟩ (fun _ _ => ({}, {})) _ ∅ _ plainLibrary_lawful
    decode_sample
  exact response_id_ne plainLibrary_lawful decode_sample returned read id

end Creek.Leaf
