import SessionKeeper.Main
import SessionKeeper.Script.Machine
import SessionKeeper.Proofs.Text.Percent
import SessionKeeper.Proofs.Json.Number
import SessionKeeper.Proofs.Json.Reread
import SessionKeeper.Proofs.Time.Stored
import SessionKeeper.Proofs.Number.Order
import SessionKeeper.Proofs.Disk.Tree
import SessionKeeper.Proofs.Script.Exec
import SessionKeeper.Proofs.Disk.Ground
import SessionKeeper.Proofs.Assoc
import SessionKeeper.Proofs.Record.Document
import SessionKeeper.Proofs.Record.Store
import SessionKeeper.Proofs.Lock.Files
import SessionKeeper.Proofs.Text.Blank
import SessionKeeper.Proofs.Session.Recalled
import SessionKeeper.Proofs.Script.Ends
import SessionKeeper.Proofs.Keeper.Run
import SessionKeeper.Proofs.Lock.Shape
import SessionKeeper.Proofs.Lock.Outcome
import SessionKeeper.Proofs.Lock.Ownership
import SessionKeeper.Proofs.Lock.Contest
import SessionKeeper.Proofs.Lock.Trespass
import SessionKeeper.Proofs.Json.Settled
import SessionKeeper.Proofs.Disk.Paved
import SessionKeeper.Proofs.Record.Room
import SessionKeeper.Proofs.Record.InOrder
import SessionKeeper.Proofs.Record.Dictionary
import SessionKeeper.Proofs.Time.Iso
import SessionKeeper.Proofs.Record.Eviction
import SessionKeeper.Proofs.Number.Nearest
import SessionKeeper.Proofs.Number.Shortest
import SessionKeeper.Proofs.Json.Float
import SessionKeeper.Proofs.Json.Parsed
import SessionKeeper.Proofs.Record.Regular
import SessionKeeper.Proofs.Script.Yields
import SessionKeeper.Proofs.Secret.Ledger
import SessionKeeper.Proofs.Session.Listed
import SessionKeeper.Proofs.Keeper.Attended
import SessionKeeper.Proofs.Lock.Section
import SessionKeeper.Proofs.Keeper.Stored
import SessionKeeper.Proofs.Keeper.Reloaded
import SessionKeeper.Proofs.Keeper.Books
import SessionKeeper.Proofs.Keeper.Credentials
import SessionKeeper.Proofs.Keeper.Parts
import SessionKeeper.Proofs.Keeper.Gate
import SessionKeeper.Proofs.Keeper.Reached
import SessionKeeper.Proofs.Keeper.Refusal
import SessionKeeper.Proofs.Keeper.Serving
import SessionKeeper.Proofs.Keeper.Race
import SessionKeeper.Proofs.Lock.Spans
import SessionKeeper.Proofs.Keeper.Choice
import SessionKeeper.Proofs.Record.Served
import SessionKeeper.Proofs.Secret.Levels
import SessionKeeper.Proofs.Keeper.LoggedOut
import SessionKeeper.Proofs.Keeper.Entrance
import SessionKeeper.Proofs.Keeper.Crash
import SessionKeeper.Proofs.Keeper.Secrecy
import SessionKeeper.Proofs.Command.Unchanged
import SessionKeeper.Proofs.Record.Tolerance
import SessionKeeper.Proofs.Lock.Decision
import SessionKeeper.Proofs.Keeper.Roster
import SessionKeeper.Proofs.Lock.Hold
import SessionKeeper.Proofs.Disk.Descent
import SessionKeeper.Proofs.Record.Whole
import SessionKeeper.Proofs.Command.Pruning
import SessionKeeper.Proofs.Command.States
import SessionKeeper.Proofs.Session.Decoded
import SessionKeeper.Proofs.Keeper.Synced
import SessionKeeper.Proofs.Keeper.Saved
import SessionKeeper.Proofs.Lock.Keys
import SessionKeeper.Proofs.OAuth.Given
import SessionKeeper.Proofs.OAuth.Redirect
import SessionKeeper.Proofs.Keyserver.Passphrase
import SessionKeeper.Proofs.Yaml.Scan
import SessionKeeper.Proofs.Yaml.Tree
import SessionKeeper.Proofs.Time.Seconds
import SessionKeeper.Proofs.Settings.Durations
import SessionKeeper.Proofs.Keeper.Composed
import SessionKeeper.Proofs.Command.MetadataFile
import SessionKeeper.Proofs.OAuth.ClientId
import SessionKeeper.Proofs.Keeper.Listing
import SessionKeeper.Proofs.Command.WorkerFile
