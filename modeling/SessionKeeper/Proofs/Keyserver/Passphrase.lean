import SessionKeeper.Keyserver.Client
import SessionKeeper.Proofs.Disk.Ground
import SessionKeeper.Proofs.Script.Exec

/-!
# How fetching a passphrase ends

Without a token nothing is sent, and with one there is a single request, whose answer decides. The
failure that names its cause is how nearly all of it ends that goes wrong. Three ways lead past it.
What is not ASCII has no octets in the header of a request, so that none is sent for such a token.
A JSON body may have more levels than there is room for. And a body that is no JSON is shown in the
character set that its content type asks for, which can want a mark in front of it that shows the
order of its octets, or be one of the runtime that has errors of its own.
-/
namespace SessionKeeper.Keyserver

/-- That all code points of a text have octets in the header of a request. -/
def IsAscii (t : Text) : Prop := ∀ p ∈ t, p.code < 128

/-- Looking for code points finds none where none fails the test. -/
theorem find_run_isEmpty {codec complaint : String} {fails : Point → Bool} (t : Text) :
    (Unencodable.find codec complaint fails t).run.isEmpty = true ↔ ∀ p ∈ t, fails p = false := by
  induction t with
  | nil => simp [Unencodable.find]
  | cons p t ih =>
    rcases flawed : fails p with _ | _
    · have shift : (Unencodable.find codec complaint fails (p :: t)).run =
          (Unencodable.find codec complaint fails t).run := by
        simp [Unencodable.find, flawed]
      rw [shift, ih, List.forall_mem_cons]
      simp [flawed]
    · simp [Unencodable.find, flawed]

theorem ascii?_eq_none (t : Text) : Unencodable.ascii? t = none ↔ IsAscii t := by
  have plain : Unencodable.ascii? t = none ↔
      (Unencodable.find "ascii" "ordinal not in range(128)" (fun p => 128 ≤ p.code)
        t).run.isEmpty = true := by
    rw [Unencodable.ascii?]
    split_ifs with empty
    · exact iff_of_true rfl empty
    · exact iff_of_false nofun empty
  rw [plain, find_run_isEmpty, IsAscii]
  simp

/-- The character sets that want a mark, with its size. -/
inductive WantsMark : Charset → Nat → Prop where
  | pairs : WantsMark .utf16Marked 2
  | quads : WantsMark .utf32Marked 4

theorem showMarked_eq_error {size : Nat} {read : Bool → Octets → Text} {octets : Octets}
    {fault : Charset.Unmarked} : Charset.showMarked size read octets = .error fault ↔
      Charset.unmark? size octets = none ∧ size ≤ octets.length ∧ fault = ⟨8 * size⟩ := by
  rw [Charset.showMarked]
  rcases mark : Charset.unmark? size octets with _ | ⟨order, body⟩
  · dsimp only
    split_ifs with short
    · refine iff_of_false nofun fun h => ?_
      omega
    · simp [Nat.le_of_not_lt short, eq_comm]
  · simp

/-- Octets are shown in any character set, unless a mark is wanted that they do not begin with. -/
theorem decodeLossy_eq_error {charset : Charset} {octets : Octets} {fault : Charset.Unmarked} :
    charset.decodeLossy octets = .error fault ↔ ∃ size, WantsMark charset size ∧
      Charset.unmark? size octets = none ∧ size ≤ octets.length ∧ fault = ⟨8 * size⟩ := by
  constructor
  · intro h
    cases charset
    case utf16Marked => exact ⟨2, .pairs, showMarked_eq_error.mp h⟩
    case utf32Marked => exact ⟨4, .quads, showMarked_eq_error.mp h⟩
    all_goals cases h
  · rintro ⟨size, wants, unmarked⟩
    cases wants with
    | pairs => exact showMarked_eq_error.mpr unmarked
    | quads => exact showMarked_eq_error.mpr unmarked

section

variable [Runtime]

/-- That octets are a JSON document of a value, in the encoding that they begin like. -/
def Spells (body : Octets) (value : Json) : Prop :=
  ∃ text, (Charset.ofDocument body).decodeDocument? body = some text ∧ Json.parse text = .ok value

/-- That octets are JSON up to where there are too many levels. -/
def GoesDeep (body : Octets) (nesting : Nesting) : Prop :=
  ∃ text, (Charset.ofDocument body).decodeDocument? body = some text ∧
    Json.parse text = .error (.beyond (.levels nesting))

/-- That octets are taken for no JSON. -/
structure IsOther (body : Octets) : Prop where
  unspelled : ∀ value, ¬ Spells body value
  shallow : ∀ nesting, ¬ GoesDeep body nesting

/-- What the body of a reply is shown as: in the character set that its content type asks for, one
that is known or else one of the runtime, and in UTF-8 if it asks for neither. -/
inductive Shows (reply : Reply) : Text → Prop where
  | known {name : String} {charset : Charset} {t : Text}
    (asked : Charset.asked? reply.contentType = some name)
    (known : Charset.ofName? name = some charset)
    (shown : charset.decodeLossy reply.body = .ok t) : Shows reply t
  | empty {name : String} {decode : Octets → Except CodecFault Text}
    (asked : Charset.asked? reply.contentType = some name) (foreign : Charset.ofName? name = none)
    (codec : Runtime.codec? name = some decode) (empty : reply.body = []) : Shows reply []
  | foreign {name : String} {decode : Octets → Except CodecFault Text} {t : Text}
    (asked : Charset.asked? reply.contentType = some name) (foreign : Charset.ofName? name = none)
    (codec : Runtime.codec? name = some decode) (filled : reply.body ≠ [])
    (shown : decode reply.body = .ok t) : Shows reply t
  | other (unknown : ∀ name, Charset.asked? reply.contentType = some name →
      Charset.ofName? name = none ∧ Runtime.codec? name = none) :
    Shows reply (Utf8.decodeLossy reply.body)

/-- What keeps the body of a reply from being shown: it lacks the mark that its character set wants,
or a character set of the runtime has an error. -/
inductive Unshown (reply : Reply) : Failure → Prop where
  | unmarked {name : String} {charset : Charset} {size : Nat}
    (asked : Charset.asked? reply.contentType = some name)
    (known : Charset.ofName? name = some charset) (wanted : WantsMark charset size)
    (unmarked : Charset.unmark? size reply.body = none) (long : size ≤ reply.body.length) :
    Unshown reply (.unmarked ⟨8 * size⟩)
  | foreign {name : String} {decode : Octets → Except CodecFault Text} {fault : CodecFault}
    (asked : Charset.asked? reply.contentType = some name) (foreign : Charset.ofName? name = none)
    (codec : Runtime.codec? name = some decode) (filled : reply.body ≠ [])
    (failed : decode reply.body = .error fault) : Unshown reply (.foreign fault)

/-- That a member of a name is a text that is not empty. -/
def Tells (members : Assoc Text Json) (name t : Text) : Prop :=
  members.value? name = some (.str t) ∧ t ≠ []

/-- That a text is the first one told of two members. -/
inductive Prefers (members : Assoc Text Json) (first second : Text) : Text → Prop where
  | first {t : Text} (h : Tells members first t) : Prefers members first second t
  | second {t : Text} (none : ∀ other, ¬ Tells members first other) (h : Tells members second t) :
    Prefers members first second t

/-- That a reply carries a passphrase: as a JSON text, as a member of a JSON object, or in plain
text, without the blanks around it. -/
inductive Carries (reply : Reply) : Text → Prop where
  | text {t : Text} (spelled : Spells reply.body (.str t)) (filled : t ≠ []) : Carries reply t
  | member {members : Assoc Text Json} {t : Text} (spelled : Spells reply.body (.obj members))
    (told : Prefers members "passphrase" "secret" t) : Carries reply t
  | plain {t : Text} (other : IsOther reply.body) (shown : Shows reply t) (filled : t.trim ≠ []) :
    Carries reply t.trim

theorem Carries.ne_nil {reply : Reply} {passphrase : Text} (h : Carries reply passphrase) :
    passphrase ≠ [] := by
  cases h with
  | text _ filled => exact filled
  | member _ told =>
    cases told with
    | first h => exact h.2
    | second _ h => exact h.2
  | plain _ _ filled => exact filled

/-- What stops the reading of a reply before it is known whether it carries a passphrase. -/
inductive Escapes (reply : Reply) : Failure → Prop where
  | deep {nesting : Nesting} (deep : GoesDeep reply.body nesting) :
    Escapes reply (.beyond (.levels nesting))
  | unshown {failure : Failure} (other : IsOther reply.body) (unshown : Unshown reply failure) :
    Escapes reply failure

end

namespace Client

variable {reply : Reply} {body : Octets} {t passphrase : Text} {members : Assoc Text Json}

theorem nonEmpty_eq_some_iff : nonEmpty t = some passphrase ↔ passphrase = t ∧ t ≠ [] := by
  rw [nonEmpty]
  split_ifs with empty
  · have : t = [] := by simpa using empty
    simp [this]
  · have : t ≠ [] := by simpa using empty
    simp [this, eq_comm]

theorem tells_iff {name : Text} :
    ((members.value? name).bind Json.text?).bind nonEmpty = some t ↔ Tells members name t := by
  simp only [Option.bind_eq_some_iff, nonEmpty_eq_some_iff, Tells]
  constructor
  · rintro ⟨found, ⟨value, told, read⟩, rfl, filled⟩
    cases value <;> simp_all [Json.text?]
  · rintro ⟨told, filled⟩
    exact ⟨t, ⟨_, told, rfl⟩, rfl, filled⟩

theorem firstText_eq_some {first second : Text} :
    firstText members [first, second] = some t ↔ Prefers members first second t := by
  simp only [firstText]
  rcases one : ((members.value? first).bind Json.text?).bind nonEmpty with _ | u
  · have none (other : Text) : ¬ Tells members first other := fun h => by
      rw [tells_iff.mpr h] at one
      cases one
    rcases two : ((members.value? second).bind Json.text?).bind nonEmpty with _ | v
    · refine iff_of_false nofun fun h => ?_
      cases h with
      | first h => exact none _ h
      | second _ h =>
        rw [tells_iff.mpr h] at two
        cases two
    · constructor
      · rintro ⟨⟩
        exact .second none (tells_iff.mp two)
      · intro h
        cases h with
        | first h => exact absurd h (none _)
        | second _ h => rw [← two, tells_iff.mpr h]
  · constructor
    · rintro ⟨⟩
      exact .first (tells_iff.mp one)
    · intro h
      cases h with
      | first h => rw [← one, tells_iff.mpr h]
      | second none _ => exact absurd (tells_iff.mp one) (none _)

/-- That a text is the access token there is. -/
structure HasToken (token : Option Text) (t : Text) : Prop where
  told : token = some t
  filled : t ≠ []

/-- That all headers of a request can be sent. -/
structure IsSendable (request : Request) : Prop where
  authorization : IsAscii request.authorization
  proxy : ∀ proxy, request.proxy = some proxy → IsAscii proxy

theorem unsendable?_eq_none {request : Request} :
    unsendable? request = none ↔ IsSendable request := by
  have proxies : request.proxy.bind Unencodable.ascii? = none ↔
      ∀ proxy, request.proxy = some proxy → IsAscii proxy := by
    rw [Option.bind_eq_none_iff]
    exact forall_congr' fun proxy => imp_congr_right fun _ => ascii?_eq_none proxy
  rw [unsendable?]
  rcases flawed : Unencodable.ascii? request.authorization with _ | flaw
  · rw [proxies]
    exact ⟨fun h => ⟨(ascii?_eq_none _).mp flawed, h⟩, IsSendable.proxy⟩
  · refine iff_of_false nofun fun h => ?_
    rw [(ascii?_eq_none _).mpr h.authorization] at flawed
    cases flawed

variable {client : Client} {token : Option Text} {machine : Machine}

theorem hasToken_iff : token.bind nonEmpty = some t ↔ HasToken token t := by
  rw [Option.bind_eq_some_iff]
  constructor
  · rintro ⟨_, told, h⟩
    obtain ⟨rfl, filled⟩ := nonEmpty_eq_some_iff.mp h
    exact ⟨told, filled⟩
  · exact fun h => ⟨t, h.told, nonEmpty_eq_some_iff.mpr ⟨rfl, h.filled⟩⟩

def sentBy (machine : Machine) : List Request := machine.transcript.filterMap Output.request?

def posted (request : Request) (machine : Machine) : Machine :=
  (machine.answer (.post request)).2

theorem sentBy_posted (request : Request) : sentBy (posted request machine) =
    sentBy machine ++ [request] :=
  List.filterMap_append

theorem sentBy_log (level : Level) (channel : Channel) (message : String) :
    sentBy (machine.tell (.log ⟨level, channel, message⟩)) = sentBy machine :=
  List.filterMap_append.trans (List.append_nil _)

section

variable [Runtime]

theorem document?_eq_ok_some {value : Json} :
    document? body = .ok (some value) ↔ Spells body value := by
  rw [document?, Spells]
  rcases (Charset.ofDocument body).decodeDocument? body with _ | text
  · exact ⟨nofun, nofun⟩
  · simp only [Option.some.injEq, exists_eq_left']
    rcases Json.parse text with (_ | _ | _) | other <;> simp

theorem document?_eq_error {nesting : Nesting} :
    document? body = .error nesting ↔ GoesDeep body nesting := by
  rw [document?, GoesDeep]
  rcases (Charset.ofDocument body).decodeDocument? body with _ | text
  · exact ⟨nofun, nofun⟩
  · simp only [Option.some.injEq, exists_eq_left']
    rcases Json.parse text with (_ | _ | _) | other <;> simp

theorem document?_eq_ok_none : document? body = .ok none ↔ IsOther body := by
  constructor
  · intro found
    refine ⟨fun value spelled => ?_, fun nesting deep => ?_⟩
    · rw [document?_eq_ok_some.mpr spelled] at found
      cases found
    · rw [document?_eq_error.mpr deep] at found
      cases found
  · intro other
    rcases found : document? body with nesting | _ | value
    · exact absurd (document?_eq_error.mp found) (other.shallow nesting)
    · rfl
    · exact absurd (document?_eq_ok_some.mp found) (other.unspelled value)

/-- A set that the runtime brings along is only asked where there is something to be shown. -/
theorem bodyText_foreign {name : String} {decode : Octets → Except CodecFault Text}
    (asked : Charset.asked? reply.contentType = some name) (foreign : Charset.ofName? name = none)
    (codec : Runtime.codec? name = some decode) : bodyText reply.contentType reply.body =
      if reply.body.isEmpty then .ok [] else (decode reply.body).mapError .foreign := by
  simp only [bodyText, asked, foreign, codec]

theorem bodyText_known {name : String} {charset : Charset}
    (asked : Charset.asked? reply.contentType = some name)
    (known : Charset.ofName? name = some charset) : bodyText reply.contentType reply.body =
      (charset.decodeLossy reply.body).mapError .unmarked := by
  simp only [bodyText, asked, known]

theorem bodyText_other (unknown : ∀ name, Charset.asked? reply.contentType = some name →
    Charset.ofName? name = none ∧ Runtime.codec? name = none) :
    bodyText reply.contentType reply.body = .ok (Utf8.decodeLossy reply.body) := by
  rw [bodyText]
  rcases asked : Charset.asked? reply.contentType with _ | name
  · rfl
  · simp only [(unknown name asked).1, (unknown name asked).2]

/-- A body is shown, or something keeps it from being shown. -/
theorem bodyText_cases (reply : Reply) :
    (∃ t, bodyText reply.contentType reply.body = .ok t ∧ Shows reply t) ∨
      ∃ failure, bodyText reply.contentType reply.body = .error failure ∧
        Unshown reply failure := by
  by_cases unknown : ∀ name, Charset.asked? reply.contentType = some name →
      Charset.ofName? name = none ∧ Runtime.codec? name = none
  · exact .inl ⟨_, bodyText_other unknown, .other unknown⟩
  push Not at unknown
  obtain ⟨name, asked, some_set⟩ := unknown
  rcases known : Charset.ofName? name with _ | charset
  · obtain ⟨decode, codec⟩ := Option.ne_none_iff_exists'.mp (some_set known)
    have text := bodyText_foreign asked known codec
    split_ifs at text with empty
    · rw [List.isEmpty_iff] at empty
      exact .inl ⟨_, text, .empty asked known codec empty⟩
    · rw [List.isEmpty_iff] at empty
      rcases shown : decode reply.body with fault | t <;> rw [shown] at text
      · exact .inr ⟨_, text, .foreign asked known codec empty shown⟩
      · exact .inl ⟨_, text, .foreign asked known codec empty shown⟩
  · have text := bodyText_known asked known
    rcases shown : charset.decodeLossy reply.body with fault | t <;> rw [shown] at text
    · obtain ⟨size, wanted, unmarked, long, rfl⟩ := decodeLossy_eq_error.mp shown
      exact .inr ⟨_, text, .unmarked asked known wanted unmarked long⟩
    · exact .inl ⟨_, text, .known asked known shown⟩

theorem bodyText_of_shows (h : Shows reply t) :
    bodyText reply.contentType reply.body = .ok t := by
  cases h with
  | known asked known shown => rw [bodyText_known asked known, shown]; rfl
  | empty asked foreign codec empty => rw [bodyText_foreign asked foreign codec, empty]; rfl
  | foreign asked foreign codec filled shown =>
    rw [bodyText_foreign asked foreign codec, if_neg (by simpa using filled), shown]
    rfl
  | other unknown => exact bodyText_other unknown

theorem bodyText_of_unshown {failure : Failure} (h : Unshown reply failure) :
    bodyText reply.contentType reply.body = .error failure := by
  cases h with
  | unmarked asked known wanted unmarked long =>
    rw [bodyText_known asked known, decodeLossy_eq_error.mpr ⟨_, wanted, unmarked, long, rfl⟩]
    rfl
  | foreign asked foreign codec filled failed =>
    rw [bodyText_foreign asked foreign codec, if_neg (by simpa using filled), failed]
    rfl

/-- What is found in a reply that is a JSON text, a JSON object or no JSON. -/
theorem passphrase?_text (spelled : Spells reply.body (.str t)) :
    passphrase? reply = .ok (nonEmpty t) := by
  rw [passphrase?, document?_eq_ok_some.mpr spelled]

theorem passphrase?_members (spelled : Spells reply.body (.obj members)) :
    passphrase? reply = .ok (firstText members ["passphrase", "secret"]) := by
  rw [passphrase?, document?_eq_ok_some.mpr spelled]

theorem passphrase?_plain (other : IsOther reply.body) : passphrase? reply =
    (bodyText reply.contentType reply.body).map fun t => nonEmpty t.trim := by
  rw [passphrase?, document?_eq_ok_none.mpr other]

/-- Nothing but the passphrase that a reply carries is found in it. -/
theorem passphrase?_eq_some :
    passphrase? reply = .ok (some passphrase) ↔ Carries reply passphrase := by
  constructor
  · intro h
    rcases document : document? reply.body with nesting | _ | value
    · rw [passphrase?, document] at h
      cases h
    · have other := document?_eq_ok_none.mp document
      rw [passphrase?_plain other] at h
      obtain ⟨t, text, shows⟩ | ⟨failure, text, -⟩ := bodyText_cases reply <;> rw [text] at h
      · obtain ⟨rfl, filled⟩ := nonEmpty_eq_some_iff.mp (Except.ok.inj h)
        exact .plain other shows filled
      · cases h
    · have spelled := document?_eq_ok_some.mp document
      cases value with
      | str t =>
        rw [passphrase?_text spelled] at h
        obtain ⟨rfl, filled⟩ := nonEmpty_eq_some_iff.mp (Except.ok.inj h)
        exact .text spelled filled
      | obj members =>
        rw [passphrase?_members spelled] at h
        exact .member spelled (firstText_eq_some.mp (Except.ok.inj h))
      | _ =>
        rw [passphrase?, document] at h
        cases h
  · intro h
    cases h with
    | text spelled filled =>
      rw [passphrase?_text spelled]
      exact congrArg Except.ok (nonEmpty_eq_some_iff.mpr ⟨rfl, filled⟩)
    | member spelled told =>
      rw [passphrase?_members spelled]
      exact congrArg Except.ok (firstText_eq_some.mpr told)
    | plain other shown filled =>
      rw [passphrase?_plain other, bodyText_of_shows shown]
      exact congrArg Except.ok (nonEmpty_eq_some_iff.mpr ⟨rfl, filled⟩)

theorem passphrase?_eq_error {failure : Failure} :
    passphrase? reply = .error failure ↔ Escapes reply failure := by
  constructor
  · intro h
    rcases document : document? reply.body with nesting | _ | value
    · rw [passphrase?, document] at h
      obtain rfl := Except.error.inj h
      exact .deep (document?_eq_error.mp document)
    · have other := document?_eq_ok_none.mp document
      rw [passphrase?_plain other] at h
      obtain ⟨t, text, -⟩ | ⟨failure, text, unshown⟩ := bodyText_cases reply <;> rw [text] at h
      · cases h
      · obtain rfl := Except.error.inj h
        exact .unshown other unshown
    · rw [passphrase?, document] at h
      cases value <;> cases h
  · intro h
    cases h with
    | deep deep => rw [passphrase?, document?_eq_error.mpr deep]
    | unshown other unshown =>
      rw [passphrase?_plain other, bodyText_of_unshown unshown]
      rfl

/-- How fetching a passphrase ends and which requests are sent for it, by what the server answers
to a request. -/
inductive Fetches (client : Client) (token : Option Text) (answer : Request → Outcome) :
    Except Failure Text → List Request → Prop where
  | noToken (absent : ∀ t, ¬ HasToken token t) :
    Fetches client token answer (.error (.noCredentials .noToken)) []
  | unsendable {t : Text} {flaw : Unencodable} (has : HasToken token t)
    (flawed : unsendable? (client.request t) = some flaw) :
    Fetches client token answer (.error (.unencodable flaw)) []
  | transport {t : Text} {name : String} (has : HasToken token t)
    (sendable : IsSendable (client.request t)) (h : answer (client.request t) = .error name) :
    Fetches client token answer (.error (.noCredentials (.transport name))) [client.request t]
  | status {t : Text} {reply : Reply} (has : HasToken token t)
    (sendable : IsSendable (client.request t)) (h : answer (client.request t) = .ok reply)
    (failed : reply.isSuccess = false) :
    Fetches client token answer (.error (.noCredentials (.status reply.status)))
      [client.request t]
  | passphrase {t passphrase : Text} {reply : Reply} (has : HasToken token t)
    (sendable : IsSendable (client.request t)) (h : answer (client.request t) = .ok reply)
    (success : reply.isSuccess = true) (carried : Carries reply passphrase) :
    Fetches client token answer (.ok passphrase) [client.request t]
  | noPassphrase {t : Text} {reply : Reply} (has : HasToken token t)
    (sendable : IsSendable (client.request t)) (h : answer (client.request t) = .ok reply)
    (success : reply.isSuccess = true) (empty : ∀ passphrase, ¬ Carries reply passphrase)
    (readable : ∀ failure, ¬ Escapes reply failure) :
    Fetches client token answer (.error (.noCredentials .noPassphrase)) [client.request t]
  | escaped {t : Text} {reply : Reply} {failure : Failure} (has : HasToken token t)
    (sendable : IsSendable (client.request t)) (h : answer (client.request t) = .ok reply)
    (success : reply.isSuccess = true) (escapes : Escapes reply failure) :
    Fetches client token answer (.error failure) [client.request t]

/-- A passphrase that is returned is not empty. -/
theorem Fetches.ne_nil {answer : Request → Outcome} {sent : List Request}
    (h : Fetches client token answer (.ok passphrase) sent) : passphrase ≠ [] := by
  cases h with
  | passphrase _ _ _ _ carried => exact carried.ne_nil

theorem fetch_without (absent : ∀ t, ¬ HasToken token t) :
    (client.fetchPassphrase token).exec machine = (.error (.noCredentials .noToken), machine) := by
  have none : token.bind nonEmpty = none := by
    rw [Option.eq_none_iff_forall_ne_some]
    exact fun t h => absent t (hasToken_iff.mp h)
  rw [fetchPassphrase, none]
  rfl

/-- Nothing is done when a header cannot be sent. -/
theorem fetch_unsendable {flaw : Unencodable} (has : HasToken token t)
    (flawed : unsendable? (client.request t) = some flaw) :
    (client.fetchPassphrase token).exec machine = (.error (.unencodable flaw), machine) := by
  rw [fetchPassphrase, hasToken_iff.mpr has]
  dsimp only
  rw [flawed]
  rfl

/-- What is made of the answer to a request. -/
def settle : Outcome → Action Text
  | .error name => giveUp (.transport name)
  | .ok reply =>
    if !reply.isSuccess then giveUp (.status reply.status)
    else match passphrase? reply with
      | .error failure => throw failure
      | .ok (some passphrase) => return passphrase
      | .ok none => do
        Action.log .error .keyserver "Keyserver returned no passphrase"
        throw (.noCredentials .noPassphrase)

/-- Once a request is sent, its answer decides. -/
theorem fetch_posted (has : HasToken token t) (sendable : IsSendable (client.request t)) :
    (client.fetchPassphrase token).exec machine =
      (settle (machine.keyserver machine.requests (client.request t))).exec
        (posted (client.request t) machine) := by
  have answered : machine.answer (.post (client.request t)) =
    (machine.keyserver machine.requests (client.request t), posted (client.request t) machine) := rfl
  rw [fetchPassphrase, hasToken_iff.mpr has]
  dsimp only
  rw [unsendable?_eq_none.mpr sendable]
  dsimp only
  rw [Action.exec_ask_bind answered]
  cases machine.keyserver machine.requests (client.request t) <;> rfl

theorem settle_status {reply : Reply} (failed : reply.isSuccess = false) :
    settle (.ok reply) = giveUp (.status reply.status) := by
  rw [settle, failed]
  rfl

theorem settle_success {reply : Reply} (success : reply.isSuccess = true) :
    settle (.ok reply) = (match passphrase? reply with
      | .error failure => throw failure
      | .ok (some passphrase) => return passphrase
      | .ok none => do
        Action.log .error .keyserver "Keyserver returned no passphrase"
        throw (.noCredentials .noPassphrase)) := by
  rw [settle, success]
  rfl

variable {answer : Request → Outcome} {outcome : Except Failure Text} {sent : List Request}

/-- Each of the ways is how fetching ends where its conditions hold. -/
theorem Fetches.exec (h : Fetches client token (machine.keyserver machine.requests) outcome sent) :
    ∃ after, (client.fetchPassphrase token).exec machine = (outcome, after) ∧
      sentBy after = sentBy machine ++ sent := by
  cases h with
  | noToken absent => exact ⟨_, fetch_without absent, (List.append_nil _).symm⟩
  | unsendable has flawed => exact ⟨_, fetch_unsendable has flawed, (List.append_nil _).symm⟩
  | transport has sendable told =>
    rw [fetch_posted has sendable, told]
    exact ⟨_, rfl, (sentBy_log ..).trans (sentBy_posted _)⟩
  | status has sendable told failed =>
    rw [fetch_posted has sendable, told, settle_status failed]
    exact ⟨_, rfl, (sentBy_log ..).trans (sentBy_posted _)⟩
  | passphrase has sendable told success carried =>
    rw [fetch_posted has sendable, told, settle_success success, passphrase?_eq_some.mpr carried]
    exact ⟨_, rfl, sentBy_posted _⟩
  | @noPassphrase t reply has sendable told success empty readable =>
    have found : passphrase? reply = .ok none := by
      rcases found : passphrase? reply with failure | _ | passphrase
      · exact absurd (passphrase?_eq_error.mp found) (readable failure)
      · rfl
      · exact absurd (passphrase?_eq_some.mp found) (empty passphrase)
    rw [fetch_posted has sendable, told, settle_success success, found]
    exact ⟨_, rfl, (sentBy_log ..).trans (sentBy_posted _)⟩
  | escaped has sendable told success escapes =>
    rw [fetch_posted has sendable, told, settle_success success, passphrase?_eq_error.mpr escapes]
    exact ⟨_, rfl, sentBy_posted _⟩

/-- There is no other way for fetching to end. -/
theorem Fetches.total (client : Client) (token : Option Text) (answer : Request → Outcome) :
    ∃ outcome sent, Fetches client token answer outcome sent := by
  by_cases absent : ∀ t, ¬ HasToken token t
  · exact ⟨_, _, .noToken absent⟩
  obtain ⟨t, has⟩ := not_forall_not.mp absent
  rcases flawed : unsendable? (client.request t) with _ | flaw
  swap
  · exact ⟨_, _, .unsendable has flawed⟩
  have sendable := unsendable?_eq_none.mp flawed
  rcases told : answer (client.request t) with name | reply
  · exact ⟨_, _, .transport has sendable told⟩
  rcases success : reply.isSuccess with _ | _
  · exact ⟨_, _, .status has sendable told success⟩
  by_cases escapes : ∃ failure, Escapes reply failure
  · obtain ⟨failure, escapes⟩ := escapes
    exact ⟨_, _, .escaped has sendable told success escapes⟩
  by_cases carried : ∃ passphrase, Carries reply passphrase
  · obtain ⟨passphrase, carried⟩ := carried
    exact ⟨_, _, .passphrase has sendable told success carried⟩
  exact ⟨_, _, .noPassphrase has sendable told success (not_exists.mp carried)
    (not_exists.mp escapes)⟩

end

end Client

end SessionKeeper.Keyserver
