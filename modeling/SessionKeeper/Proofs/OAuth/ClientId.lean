import SessionKeeper.Proofs.Command.MetadataFile
import SessionKeeper.Proofs.Text.Percent

/-!
# What a client id carries

A client id is the address of a page with two parameters behind it, the redirect URI and the scope.
Their written forms have no separator in them, so cutting the id at the separators gives the two
parameters back, and decoding these gives the texts. A scope is kept with single blanks between its
words; checking it once more changes nothing, and so metadata that were accepted are accepted as
they are.
-/
namespace SessionKeeper

namespace OAuth.ClientMetadata

def fullRecord (metadata : ClientMetadata) : Json :=
  .obj [("client_name", .str metadata.name), ("client_uri", .str metadata.uri),
    ("redirect_uri", .str metadata.redirectUri), ("scope", .str metadata.scope),
    ("handle_resolver", .str metadata.handleResolver)]

/-- The ways in which metadata come to be accepted: they are read from data, or loaded from a
folder. -/
inductive IsAccepted [Runtime] (metadata : ClientMetadata) : Prop where
  | data {value : Json} (h : read value = .ok metadata)
  | file {folder : Path} {machine : Machine}
    (h : ((load folder).exec machine).1 = .ok metadata)

/-- That what goes into the client id is spelled in characters, without a lone surrogate. -/
structure IsSpelled (metadata : ClientMetadata) : Prop where
  redirectUri : ∃ cs, metadata.redirectUri = .ofChars cs
  scope : ∃ cs, metadata.scope = .ofChars cs

/-- That a client id carries a redirect URI and a scope: behind the address of the page there are
two parameters with their names, and these texts are what their values are decoded as. -/
def Carries (id : String) (redirectUri scope : Text) : Prop :=
  ∃ query first second : List Char, id.toList = "http://localhost/?".toList ++ query ∧
    (query.splitOn '&').map (·.splitOn '=') =
      [["redirect_uri".toList, first], ["scope".toList, second]] ∧
    Percent.decode? (.ofList first) = some redirectUri ∧
    Percent.decode? (.ofList second) = some scope

variable {metadata : ClientMetadata} {id : String} {redirectUri scope given : Text}

theorem isSound_of_read {value : Json} (h : read value = .ok metadata) : metadata.IsSound := by
  obtain ⟨members, -, made⟩ := exists_of_bind_ok h
  exact isSound_of_ofGiven made

/-- What is sound passes the checks unchanged. -/
theorem IsSound.read_fullRecord (sound : metadata.IsSound) :
    read metadata.fullRecord = .ok metadata := by
  have redirect : checkRedirectUri metadata.redirectUri = .ok metadata.redirectUri :=
    checkRedirectUri_eq_ok.mpr ⟨rfl, sound.loopback⟩
  have scope : checkScope metadata.scope = .ok metadata.scope := by
    rw [checkScope, if_pos sound.atproto, ← sound.spaced]
  refine ofGiven_eq_ok.mpr ⟨?_, ?_, ?_, ?_, ?_⟩
  · exact choose_eq_ok.mpr (.inr ⟨_, rfl, rfl⟩)
  · exact choose_eq_ok.mpr (.inr ⟨_, rfl, rfl⟩)
  · exact choose_eq_ok.mpr (.inr ⟨_, rfl, redirect⟩)
  · exact choose_eq_ok.mpr (.inr ⟨_, rfl, scope⟩)
  · exact choose_eq_ok.mpr (.inr ⟨_, rfl, rfl⟩)

theorem isAccepted_iff [Runtime] : IsAccepted metadata ↔ metadata.IsSound := by
  constructor
  · rintro (read | loaded)
    · exact isSound_of_read read
    · exact isSound_of_load loaded
  · exact fun sound => .data sound.read_fullRecord

/-- A scope that was checked has the words of the given one, with single blanks between them, and
passes the check as it is. -/
theorem checkScope_settles (h : checkScope given = .ok scope) : checkScope scope = .ok scope ∧
    scope.pieces = given.pieces ∧ scope.splitOn (.char ' ') = given.pieces := by
  obtain ⟨named, spaced, kept⟩ := words_of_checkScope h
  have settled : checkScope scope = .ok scope := by
    rw [checkScope, kept, if_pos named, ← spaced]
  have parts : scope.splitOn (.char ' ') = given.words := by
    rw [spaced]
    exact Text.splitOn_join (fun _ => Text.isWord_of_mem_words) (List.ne_nil_of_mem named)
  rw [parts, ← Text.words_eq_pieces, ← Text.words_eq_pieces]
  exact ⟨settled, kept, rfl⟩

theorem splitOn_parameter {name value : List Char} (hn : '=' ∉ name) (hv : '=' ∉ value) :
    (name ++ '=' :: value).splitOn '=' = [name, value] := by
  rw [List.splitOn_append_cons_self_of_not_mem hn, List.splitOn_eq_singleton hv]

/-- A query of two parameters is cut into these. -/
theorem splitOn_query {first second : List Char} (hf : '&' ∉ first) (hs : '&' ∉ second) :
    (first ++ '&' :: second).splitOn '&' = [first, second] := by
  rw [List.splitOn_append_cons_self_of_not_mem hf, List.splitOn_eq_singleton hs]

theorem carries_of_clientId? (h : metadata.clientId? = some id) :
    Carries id metadata.redirectUri metadata.scope := by
  obtain ⟨first, uri, rest⟩ := Option.bind_eq_some_iff.mp h
  obtain ⟨second, words, same⟩ := Option.bind_eq_some_iff.mp rest
  obtain rfl := Option.some.inj same
  have query : ("http://localhost/?redirect_uri=" ++ first ++ "&scope=" ++ second).toList =
      "http://localhost/?".toList ++ (("redirect_uri".toList ++ '=' :: first.toList) ++
        '&' :: ("scope".toList ++ '=' :: second.toList)) := by
    simp
  have parts : (("redirect_uri".toList ++ '=' :: first.toList) ++
      '&' :: ("scope".toList ++ '=' :: second.toList)).splitOn '&' =
        ["redirect_uri".toList ++ '=' :: first.toList, "scope".toList ++ '=' :: second.toList] := by
    refine splitOn_query ?_ ?_
    · simp [Percent.separator_notMem uri (.inl rfl)]
    · simp [Percent.separator_notMem words (.inl rfl)]
  refine ⟨_, first.toList, second.toList, query, ?_, ?_, ?_⟩
  · rw [parts, List.map_cons, List.map_singleton,
      splitOn_parameter (by decide) (Percent.separator_notMem uri (.inr rfl)),
      splitOn_parameter (by decide) (Percent.separator_notMem words (.inr rfl))]
  · rw [String.ofList_toList]
    exact Percent.decode?_of_encode? uri
  · rw [String.ofList_toList]
    exact Percent.decode?_of_encode? words

theorem Carries.unique {otherUri otherScope : Text} (h : Carries id redirectUri scope)
    (k : Carries id otherUri otherScope) : otherUri = redirectUri ∧ otherScope = scope := by
  obtain ⟨query, first, second, whole, parts, uri, words⟩ := h
  obtain ⟨otherQuery, otherFirst, otherSecond, otherWhole, otherParts, uri', words'⟩ := k
  obtain rfl : query = otherQuery := List.append_cancel_left (whole.symm.trans otherWhole)
  rw [parts] at otherParts
  obtain ⟨rfl, rfl⟩ : first = otherFirst ∧ second = otherSecond := by simpa using otherParts
  exact ⟨Option.some.inj (uri'.symm.trans uri), Option.some.inj (words'.symm.trans words)⟩

theorem IsSpelled.exists_clientId? (spelled : metadata.IsSpelled) :
    ∃ id, metadata.clientId? = some id := by
  obtain ⟨⟨cs, uri⟩, ds, words⟩ := spelled
  rw [clientId?, uri, words, Percent.encode?_ofChars, Percent.encode?_ofChars]
  exact ⟨_, rfl⟩

/-- Metadata that were accepted, however they came, and that are spelled in characters have a client
id. Cut at its separators it has the redirect URI and the scope for its only two parameters, and so
it is that of other metadata exactly when they agree in both. A scope is kept as the words that were
given, with single blanks between them, and is then left as it is; and reading the metadata from a
record of their own makes the same metadata. -/
theorem clientId_is_lossless [Runtime] (accepted : IsAccepted metadata)
    (spelled : metadata.IsSpelled) :
    (∃ id, metadata.clientId? = some id ∧ Carries id metadata.redirectUri metadata.scope) ∧
    (∀ other : ClientMetadata, other.clientId? = metadata.clientId? ↔
      other.redirectUri = metadata.redirectUri ∧ other.scope = metadata.scope) ∧
    (∀ given scope, checkScope given = .ok scope → checkScope scope = .ok scope ∧
      scope.pieces = given.pieces ∧ scope.splitOn (.char ' ') = given.pieces) ∧
    read metadata.fullRecord = .ok metadata := by
  obtain ⟨id, made⟩ := spelled.exists_clientId?
  refine ⟨⟨id, made, carries_of_clientId? made⟩, fun other => ?_, fun _ _ => checkScope_settles,
    (isAccepted_iff.mp accepted).read_fullRecord⟩
  constructor
  · intro same
    exact (carries_of_clientId? made).unique (carries_of_clientId? (same.trans made))
  · rintro ⟨uri, words⟩
    rw [clientId?, clientId?, uri, words]

/-- Metadata whose redirect URI has the separators and an escape in it, with a scope in two
alphabets. -/
def knotted : ClientMetadata :=
  { standard with redirectUri := "http://localhost/?a=b&c=%20", scope := "atproto λ" }

open scoped SessionKeeper.Runtime in
theorem knotted_is_carried : IsAccepted knotted ∧ knotted.IsSpelled ∧ ∃ id,
    knotted.clientId? = some id ∧ Carries id "http://localhost/?a=b&c=%20" "atproto λ" := by
  have sound : knotted.IsSound := ⟨by decide, by decide, by decide⟩
  have spelled : knotted.IsSpelled :=
    ⟨⟨"http://localhost/?a=b&c=%20".toList, rfl⟩, ⟨"atproto λ".toList, rfl⟩⟩
  have accepted := isAccepted_iff.mpr sound
  exact ⟨accepted, spelled, (clientId_is_lossless accepted spelled).1⟩

end OAuth.ClientMetadata

end SessionKeeper
