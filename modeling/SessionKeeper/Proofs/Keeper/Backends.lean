import SessionKeeper.Proofs.Keeper.LoggedOut
import SessionKeeper.Proofs.Keeper.Reached
import SessionKeeper.Proofs.Keeper.Steps

/-!
# The backends that settings choose

The results about keepers ask of the backend that it keeps a ledger of secrets, that it forgets
what is removed, and that it stays away from the files of the keeper. Settings choose between the
vault in the folder and the keychain of the platform, and either is such a backend.
-/
namespace SessionKeeper

variable [Runtime]

namespace Secret.Backend

/-- All that is asked of a backend. -/
structure Serves (folder : Path) (place : Location) (secrets : Backend)
    (holds : Machine → Ledger → Prop) (lacks : Machine → Text → Text → Prop) : Prop where
  steady : secrets.IsSteady folder place holds
  forgets : secrets.Forgets folder place lacks
  sparesIndex : secrets.SparesIndex folder place
  keepsAway : secrets.KeepsAway folder
  atomic : secrets.IsAtomic folder place

theorem ofVault_serves (folder : Path) (place : Location) :
    (ofVault (.inFolder folder)).Serves folder place (Vault.HoldsLedger place)
      (Vault.Lacks place) where
  steady := Vault.isSteady folder place
  forgets := Vault.forgets folder place
  sparesIndex := Vault.sparesIndex
  keepsAway := Vault.keepsAway folder
  atomic := Vault.isAtomic

omit [Runtime] in
theorem platform_serves (folder : Path) (place : Location) :
    platform.Serves folder place HoldsLedger Lacks where
  steady := platform_isSteady folder place
  forgets := platform_forgets folder place
  sparesIndex := platform_sparesIndex
  keepsAway := platform_keepsAway folder
  atomic := platform_isAtomic

theorem resolve_yields (folder : Path) (usePlatform : Bool) (machine : Machine) :
    (resolve folder none usePlatform).Yields machine fun secrets _ =>
      secrets = ofVault (.inFolder folder) ∨ secrets = platform := by
  have noted (note : String) (secrets : Backend) (between : Machine) :
      (do Action.log .debug .vault note; return secrets : Action Backend).Yields between
        fun chosen _ => chosen = secrets := by
    rintro _ _ ⟨⟩
    rfl
  unfold resolve
  cases usePlatform with
  | false => exact (noted _ _ _).mono fun _ _ => .inl
  | true =>
    have found : platform?.Yields machine fun found _ => ∀ b, found = some b → b = platform := by
      rintro _ _ ⟨⟩ b h
      split at h
      · exact (Option.some.inj h).symm
      · cases h
    refine found.bind fun found between h => ?_
    cases found with
    | some backend =>
      obtain rfl := h backend rfl
      exact (noted _ _ _).mono fun _ _ => .inr
    | none => exact (noted _ _ _).mono fun _ _ => .inl

end Secret.Backend

namespace Keeper

theorem ofSettings_yields (settings : Settings) (factory : OAuth.Factory) (machine : Machine) :
    (ofSettings settings factory none).Yields machine fun keeper _ =>
      keeper.secrets = .ofVault (.inFolder settings.folder) ∨ keeper.secrets = .platform := by
  refine (Secret.Backend.resolve_yields _ _ _).bind fun secrets between chosen => ?_
  refine .bind (P := fun _ _ => True) (fun _ _ _ => trivial) fun metadata later _ => ?_
  intro keeper after made
  rw [(madeIn_of_make made).1.secrets]
  exact chosen

/-- The results about keepers hold of every keeper that is made as settings say. -/
theorem secrets_serve {settings : Settings} {factory : OAuth.Factory} {machine after : Machine}
    {keeper : Keeper} (made : (ofSettings settings factory none).exec machine = (.ok keeper, after))
    (place : Location) :
    keeper.secrets.Serves settings.folder place (Secret.Vault.HoldsLedger place)
        (Secret.Vault.Lacks place) ∨
      keeper.secrets.Serves settings.folder place Secret.Backend.HoldsLedger
        Secret.Backend.Lacks := by
  obtain chosen | chosen := ofSettings_yields settings factory machine keeper after made
  · rw [chosen]
    exact .inl (Secret.Backend.ofVault_serves _ _)
  · rw [chosen]
    exact .inr (Secret.Backend.platform_serves _ _)

end Keeper

end SessionKeeper
