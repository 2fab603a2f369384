import SessionKeeper.Schema.Field

/-!
# Authorizations

What an OAuth client reports after an account has been authorized: the account's
DID and the tokens it was given, which are kept as they came.
-/
namespace SessionKeeper.OAuth

/-- The result of a completed authorization. -/
structure Authorization where
  subject : Text
  tokens : Assoc Text Json

namespace Authorization

def schema : String := "OAuthAuthorization"

/-- Reads an authorization; the tokens may be left out. -/
def read (value : Json) : Schema.Reading Authorization := do
  let members ← Schema.record schema value
  let (subject, tokens) ←
    Schema.both (Schema.required members "subject_id" Schema.text)
      (Schema.optional members "token_set" [] Schema.object)
  return ⟨subject, tokens⟩

/-- The access token among the tokens, if it is a text that is not empty. -/
def accessToken? (authorization : Authorization) : Option Text :=
  match authorization.tokens.value? "access_token" with
  | some (.str t) => if t.isEmpty then none else some t
  | _ => none

end Authorization
end SessionKeeper.OAuth
