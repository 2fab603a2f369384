import SessionKeeper.Proofs.OAuth.Given

/-!
# Where an authorization is sent

The authority of a URL ends at the first slash, question mark or number sign, and the host is what
is left of it without user information in front and without a port behind. A redirect URI is
judged by its start alone, which is a loopback address or name, and nothing says that this is all of
the host. It is the host when a port or nothing follows it in the authority; otherwise it is part
of a longer name or of user information, and then the host can be any other one.
-/
namespace SessionKeeper.OAuth

namespace Redirect

/-- How URLs begin that are sent without encryption. -/
def scheme : Text := "http://"

def localHosts : List Text := ["127.0.0.1", "[::1]", "localhost"]

def endsAuthority (p : Point) : Bool := p = .char '/' || p = .char '?' || p = .char '#'

def endsUser (p : Point) : Bool := p = .char '@'

/-- The start of a text up to where an authority ends. -/
def authorityOf (t : Text) : Text := t.takeWhile fun p => !endsAuthority p

def dropUser (authority : Text) : Text := authority.rtakeWhile fun p => !endsUser p

/-- A host and port without the port: a colon and the decimal digits behind it, if there are any. -/
def dropPort (t : Text) : Text :=
  let front := t.rdropWhile Json.isDigit
  if front.getLast? = some (.char ':') then front.dropLast else t

def host? (url : Text) : Option Text :=
  if url.startsWith scheme then some (dropPort (dropUser (authorityOf (url.drop scheme.length))))
  else none

/-- That a text is what may stand behind a host: nothing, or a port. -/
inductive IsPort : Text → Prop where
  | none : IsPort []
  | some {digits : Text} (h : ∀ p ∈ digits, Json.isDigit p = true) : IsPort (.char ':' :: digits)

/-- That a text is a host on its own, with nothing that a URL would take for something else. -/
structure IsHost (host : Text) : Prop where
  closed : ∀ p ∈ host, endsAuthority p = false
  alone : ∀ p ∈ host, endsUser p = false
  portless : dropPort host = host

theorem isHost_of_mem : ∀ host ∈ localHosts, IsHost host := by
  have all : ∀ host ∈ localHosts, (∀ p ∈ host, endsAuthority p = false) ∧
      (∀ p ∈ host, endsUser p = false) ∧ dropPort host = host := by decide +kernel
  exact fun host there => ⟨(all host there).1, (all host there).2.1, (all host there).2.2⟩

variable {name rest host user port t : Text}

theorem dropPort_append (portless : dropPort host = host) (hp : IsPort port) :
    dropPort (host ++ port) = host := by
  cases hp with
  | none => rwa [List.append_nil]
  | @some digits h =>
    have front : (host ++ .char ':' :: digits).rdropWhile Json.isDigit = host ++ [.char ':'] := by
      have stops : Json.isDigit (.char ':') = false := by decide
      rw [List.rdropWhile, List.reverse_append, List.reverse_cons, List.append_assoc,
        List.dropWhile_append_of_pos fun p hp => h p (List.mem_reverse.mp hp)]
      simp [stops]
    simp [dropPort, front]

/-- What is dropped from the end of a host is a port. -/
theorem exists_port (t : Text) : ∃ port, IsPort port ∧ t = dropPort t ++ port := by
  by_cases colon : (t.rdropWhile Json.isDigit).getLast? = some (.char ':')
  · refine ⟨.char ':' :: t.rtakeWhile Json.isDigit,
      .some fun p hp => List.mem_rtakeWhile_imp hp, ?_⟩
    have front := List.dropLast_append_getLast? _ colon
    rw [dropPort, if_pos colon, ← List.singleton_append, ← List.append_assoc, front,
      List.rdropWhile_append_rtakeWhile]
  · refine ⟨[], .none, ?_⟩
    rw [dropPort, if_neg colon, List.append_nil]

theorem IsPort.alone (h : IsPort port) : ∀ p ∈ port, endsUser p = false := by
  cases h with
  | none => nofun
  | some digits =>
    intro p hp
    rcases List.mem_cons.mp hp with rfl | hp
    · decide
    · by_contra other
      obtain rfl : p = .char '@' := by simpa [endsUser] using other
      exact absurd (digits _ hp) (by decide)

theorem dropUser_of_alone (h : ∀ p ∈ t, endsUser p = false) : dropUser t = t :=
  List.rtakeWhile_eq_self_iff.mpr fun p hp => by rw [h p hp]; rfl

/-- Only what stands behind the last at sign counts. -/
theorem dropUser_append (user : Text) (h : ∀ p ∈ t, endsUser p = false) :
    dropUser (user ++ .char '@' :: t) = t := by
  have back : ∀ p ∈ t.reverse, (!endsUser p) = true := fun p hp => by
    rw [h p (List.mem_reverse.mp hp)]
    rfl
  have stops : endsUser (.char '@') = true := by decide
  rw [dropUser, List.rtakeWhile, List.reverse_append, List.reverse_cons, List.append_assoc,
    List.takeWhile_append_of_pos back]
  simp [stops]

/-- A text has no at sign, or it is known what stands behind the last one. -/
theorem alone_or_split (t : Text) : (∀ p ∈ t, endsUser p = false) ∨
    ∃ user, t = user ++ .char '@' :: dropUser t := by
  by_cases alone : ∀ p ∈ t, endsUser p = false
  · exact .inl alone
  · refine .inr ?_
    have whole := List.rdropWhile_append_rtakeWhile (p := fun p => !endsUser p) (l := t)
    have filled : t.rdropWhile (fun p => !endsUser p) ≠ [] := fun empty =>
      alone fun p hp => by simpa using List.rdropWhile_eq_nil_iff.mp empty p hp
    have last : endsUser ((t.rdropWhile fun p => !endsUser p).getLast filled) = true := by
      simpa using List.rdropWhile_last_not _ _ filled
    have sign := of_decide_eq_true last
    refine ⟨(t.rdropWhile fun p => !endsUser p).dropLast, ?_⟩
    rw [dropUser, ← List.singleton_append, ← List.append_assoc, ← sign,
      List.dropLast_append_getLast filled, whole]

/-- That a local host at the start of an authority leaves the authority with a local host: what
follows is its port, or it was the start of user information in front of another local host. -/
inductive StaysLocal : Text → Prop where
  | port {port : Text} (h : IsPort port) : StaysLocal port
  | user (user : Text) {name port : Text} (known : name ∈ localHosts) (h : IsPort port) :
    StaysLocal (user ++ .char '@' :: (name ++ port))

/-- Local hosts are told apart by how they begin. -/
theorem eq_of_append {other tail : Text} (known : name ∈ localHosts) (same : other ∈ localHosts)
    (h : name ++ rest = other ++ tail) : name = other ∧ rest = tail := by
  have apart : ∀ a ∈ localHosts, ∀ b ∈ localHosts, a.head? = b.head? → a = b := by decide +kernel
  have filled : ∀ a ∈ localHosts, a ≠ [] := by decide +kernel
  have heads := congrArg List.head? h
  rw [List.head?_append_of_ne_nil _ (filled name known),
    List.head?_append_of_ne_nil _ (filled other same)] at heads
  obtain rfl := apart name known other same heads
  exact ⟨rfl, List.append_cancel_left h⟩

theorem dropPort_dropUser_mem (known : name ∈ localHosts) (rest : Text) :
    dropPort (dropUser (name ++ rest)) ∈ localHosts ↔ StaysLocal rest := by
  have own := isHost_of_mem name known
  constructor
  · intro stays
    obtain ⟨port, hp, whole⟩ := exists_port (dropUser (name ++ rest))
    rcases alone_or_split rest with alone | ⟨user, split⟩
    · have plain : dropUser (name ++ rest) = name ++ rest := dropUser_of_alone fun p hp =>
        (List.mem_append.mp hp).elim (own.alone p) (alone p)
      rw [plain] at whole stays
      rw [(eq_of_append known stays whole).2]
      exact .port hp
    · have behind : dropUser (name ++ rest) = dropUser rest := by
        conv_lhs => rw [split, ← List.append_assoc]
        exact dropUser_append _ fun p hp => by simpa using List.mem_rtakeWhile_imp hp
      rw [behind] at whole stays
      rw [split, whole]
      exact .user user stays hp
  · intro stays
    cases stays with
    | port hp =>
      have plain : dropUser (name ++ rest) = name ++ rest := dropUser_of_alone fun p hm =>
        (List.mem_append.mp hm).elim (own.alone p) (hp.alone p)
      rwa [plain, dropPort_append own.portless hp]
    | @user user other port same hp =>
      have host := isHost_of_mem other same
      rw [← List.append_assoc, dropUser_append _ fun p hm =>
        (List.mem_append.mp hm).elim (host.alone p) (hp.alone p), dropPort_append host.portless hp]
      exact same

theorem host?_scheme (t : Text) :
    host? (scheme ++ t) = some (dropPort (dropUser (authorityOf t))) := by
  have start : (scheme ++ t).startsWith scheme = true := by
    rw [Text.startsWith, List.isPrefixOf_iff_prefix]
    exact List.prefix_append _ _
  rw [host?, if_pos start, List.drop_left]

theorem authorityOf_append (h : ∀ p ∈ host, endsAuthority p = false) (rest : Text) :
    authorityOf (host ++ rest) = host ++ authorityOf rest :=
  List.takeWhile_append_of_pos fun p hp => by rw [h p hp]; rfl

/-- Every host is that of some URL that begins like one of a local host. -/
theorem host?_smuggled (h : IsHost host) : host? (scheme ++ "localhost" ++ "@" ++ host) = some host := by
  have own : IsHost (Text.ofString "localhost") := isHost_of_mem _ (by decide)
  have closed : ∀ p ∈ Text.ofString "localhost" ++ (Text.ofString "@" ++ host),
      endsAuthority p = false := by
    intro p hp
    rcases List.mem_append.mp hp with hp | hp
    · exact own.closed p hp
    · rcases List.mem_append.mp hp with hp | hp
      · exact (by decide : ∀ p ∈ Text.ofString "@", endsAuthority p = false) p hp
      · exact h.closed p hp
  have whole : authorityOf (Text.ofString "localhost" ++ (Text.ofString "@" ++ host)) =
      Text.ofString "localhost" ++ (Text.ofString "@" ++ host) :=
    List.takeWhile_eq_self_iff.mpr fun p hp => by rw [closed p hp]; rfl
  have sign : Text.ofString "@" ++ host = .char '@' :: host := rfl
  rw [List.append_assoc, List.append_assoc, host?_scheme, whole, sign,
    dropUser_append _ h.alone, h.portless]

end Redirect

section

variable [Runtime]

namespace ClientMetadata

open Redirect

/-- The ways in which metadata with a redirect URI are accepted: it is given in data, or under its
name in the document of the metadata file of a folder. -/
inductive Accepts (uri : Text) (metadata : ClientMetadata) : Prop where
  | data {members : Assoc Text Json} (told : members.value? "redirect_uri" = some (.str uri))
    (h : read (.obj members) = .ok metadata)
  | file {folder : Path} {machine : Machine} {octets : Octets} {cs : List Char}
    {entries : Assoc Text Yaml.Value} {value : Yaml.Value}
    (stored : machine.tree.read machine.directory (folder.child fileName) = .ok octets)
    (spelled : Utf8.decode octets = .ok cs)
    (listed : Yaml.Document.ofText? (unifyNewlines cs) = .ok (.mapping entries))
    (told : entries.value? "redirect_uri" = some value) (read : textOf value = .ok uri)
    (h : ((load folder).exec machine).1 = .ok metadata)

/-- That a text begins like the URL of a local host. -/
def StartsLocal (t : Text) : Prop := ∃ name ∈ localHosts, ∃ rest, t = scheme ++ (name ++ rest)

omit [Runtime] in
theorem isLoopback_iff (t : Text) : isLoopback t = true ↔ StartsLocal t := by
  have starts : loopbackStarts = localHosts.map (scheme ++ ·) := by decide
  rw [isLoopback, starts, List.any_map, List.any_eq_true, StartsLocal]
  refine exists_congr fun name => and_congr_right fun _ => ?_
  rw [Function.comp_apply, Text.startsWith, List.isPrefixOf_iff_prefix]
  constructor
  · rintro ⟨rest, rfl⟩
    exact ⟨rest, List.append_assoc ..⟩
  · rintro ⟨rest, rfl⟩
    exact ⟨rest, List.append_assoc ..⟩

variable {uri : Text} {metadata : ClientMetadata}

omit [Runtime] in
/-- A redirect URI that was given is kept as it is when it passes the check. -/
theorem redirectUri_of_ofGiven {given : Text → Option (Schema.Reading Text)}
    (told : given "redirect_uri" = some (.ok uri)) (h : ofGiven given = .ok metadata) :
    metadata.redirectUri = uri ∧ StartsLocal uri := by
  obtain ⟨-, -, redirect, -, -⟩ := ofGiven_eq_ok.mp h
  obtain ⟨absent, -⟩ | ⟨s, found, checked⟩ := choose_eq_ok.mp redirect
  · rw [told] at absent
    cases absent
  · rw [told] at found
    obtain rfl := Except.ok.inj (Option.some.inj found)
    obtain ⟨same, start⟩ := checkRedirectUri_eq_ok.mp checked
    exact ⟨same, (isLoopback_iff _).mp start⟩

theorem Accepts.startsLocal (h : Accepts uri metadata) :
    metadata.redirectUri = uri ∧ StartsLocal uri := by
  cases h with
  | @data members told read =>
    have found : (members.value? "redirect_uri").map Schema.text = some (.ok uri) := by
      rw [told]
      rfl
    exact redirectUri_of_ofGiven found read
  | @file folder machine octets cs entries value stored spelled listed told read loaded =>
    have found : (entries.value? "redirect_uri").map textOf = some (.ok uri) := by
      rw [told, Option.map_some, read]
    rw [load_stored stored, ofOctets] at loaded
    simp only [spelled, listed] at loaded
    rcases made : ofGiven fun name => (entries.value? name).map textOf with issues | kept
    · simp only [ofDocument, made, Except.mapError] at loaded
      cases loaded
    · simp only [ofDocument, made, Except.mapError] at loaded
      obtain rfl := Except.ok.inj loaded
      exact redirectUri_of_ofGiven found made

/-- What begins like the URL of a local host is accepted, and nothing else is said about it. -/
theorem accepts_of_startsLocal (h : StartsLocal uri) :
    Accepts uri { standard with redirectUri := uri } := by
  have told : Assoc.value? [(Text.ofString "redirect_uri", Json.str uri)] "redirect_uri" =
    some (.str uri) := rfl
  refine .data told ?_
  have checked : checkRedirectUri uri = .ok uri :=
    checkRedirectUri_eq_ok.mpr ⟨rfl, (isLoopback_iff _).mpr h⟩
  have chosen : choose (fun name => (Assoc.value? [(Text.ofString "redirect_uri", Json.str uri)]
      name).map Schema.text) "redirect_uri" standard.redirectUri checkRedirectUri = .ok uri :=
    choose_eq_ok.mpr (.inr ⟨uri, rfl, checked⟩)
  exact ofGiven_eq_ok.mpr ⟨rfl, rfl, chosen, rfl, rfl⟩

/-- A redirect URI is judged by its start, in data as in a file: it is accepted exactly when it
begins like the http URL of a local host, and it is kept as it is. The host of such a URI is local
exactly when what follows that start in the authority leaves it so, and there is no host that is not
the host of some redirect URI that is accepted. -/
theorem redirect_is_judged_by_start (uri : Text) :
    (∀ metadata, Accepts uri metadata → metadata.redirectUri = uri) ∧
      ((∃ metadata, Accepts uri metadata) ↔ StartsLocal uri) ∧
      (∀ name ∈ localHosts, ∀ rest, uri = scheme ++ (name ++ rest) →
        ∃ host, host? uri = some host ∧ (host ∈ localHosts ↔ StaysLocal (authorityOf rest))) ∧
      ∀ host, IsHost host → ∃ other metadata, Accepts other metadata ∧ host? other = some host := by
  refine ⟨fun metadata h => h.startsLocal.1, ⟨fun ⟨_, h⟩ => h.startsLocal.2,
    fun h => ⟨_, accepts_of_startsLocal h⟩⟩, ?_, fun host h => ?_⟩
  · rintro name known rest rfl
    refine ⟨_, host?_scheme _, ?_⟩
    rw [authorityOf_append (isHost_of_mem name known).closed]
    exact dropPort_dropUser_mem known _
  · have start : StartsLocal (scheme ++ "localhost" ++ "@" ++ host) := by
      refine ⟨"localhost", by decide, Text.ofString "@" ++ host, ?_⟩
      rw [List.append_assoc, List.append_assoc]
    exact ⟨_, _, accepts_of_startsLocal start, host?_smuggled h⟩

end ClientMetadata

end

namespace ClientMetadata

open Redirect
open scoped SessionKeeper.Runtime

/-- A port behind the host leaves it local. -/
theorem port_is_judged_local :
    ∃ metadata, Accepts "http://127.0.0.1:8080/callback" metadata ∧
      metadata.redirectUri = "http://127.0.0.1:8080/callback" ∧
      ∃ host ∈ localHosts, host? "http://127.0.0.1:8080/callback" = some host := by
  obtain ⟨kept, accepted, judged, -⟩ :=
    redirect_is_judged_by_start "http://127.0.0.1:8080/callback"
  obtain ⟨metadata, h⟩ := accepted.mpr ⟨"127.0.0.1", by decide, ":8080/callback", by decide⟩
  obtain ⟨host, found, mine⟩ := judged "127.0.0.1" (by decide) ":8080/callback" (by decide)
  have port : authorityOf ":8080/callback" = .char ':' :: Text.ofString "8080" := by decide
  have digits : ∀ p ∈ Text.ofString "8080", Json.isDigit p = true := by decide
  exact ⟨metadata, h, kept metadata h, host, mine.mpr (port ▸ .port (.some digits)), found⟩

/-- The name of a local host may go on to that of another host. -/
theorem foreign_host_is_accepted : ¬ ∀ uri metadata, Accepts uri metadata →
    ∃ host ∈ localHosts, host? uri = some host := by
  intro claim
  have start : StartsLocal "http://localhost.evil.example/cb" :=
    ⟨"localhost", by decide, ".evil.example/cb", by decide⟩
  obtain ⟨host, known, found⟩ := claim _ _ (accepts_of_startsLocal start)
  have foreign : host? "http://localhost.evil.example/cb" = some "localhost.evil.example" := by
    decide +kernel
  rw [foreign] at found
  obtain rfl := Option.some.inj found
  exact absurd known (by decide)

end ClientMetadata

end SessionKeeper.OAuth
