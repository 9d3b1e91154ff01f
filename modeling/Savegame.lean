import Savegame.Bytes.Lemmas
import Savegame.Game.Clock
import Savegame.Main
import Savegame.MemoryFiles
import Savegame.Record.Cursor
import Savegame.Record.Serializer
import Savegame.Record.Display
import Savegame.Slot.Directory
import Savegame.Proofs.Utf8
import Savegame.Proofs.Numeral
import Savegame.Proofs.Json
import Savegame.Proofs.Sidecar
import Savegame.Proofs.Naming
import Savegame.Proofs.NamedFile
import Savegame.Proofs.SlotCall
import Savegame.Proofs.Words
import Savegame.Proofs.Reading
import Savegame.Proofs.Field
import Savegame.Proofs.Offset
import Savegame.Proofs.Exact
import Savegame.Proofs.Variables
import Savegame.Proofs.Decoding
import Savegame.Proofs.RoundTrip
import Savegame.Proofs.Canonical
import Savegame.Proofs.Limits
import Savegame.Proofs.Requirement
import Savegame.Proofs.Acceptance
import Savegame.Proofs.Operation
import Savegame.Proofs.Effect
import Savegame.Proofs.Reachable
import Savegame.Proofs.Replacement
import Savegame.Proofs.Restoring
import Savegame.Proofs.SlotLoad
import Savegame.Proofs.Isolation
import Savegame.Proofs.Interruption
import Savegame.Proofs.Routes
import Savegame.Proofs.Tampering
import Savegame.Proofs.Torn
import Savegame.Proofs.Run
import Savegame.Proofs.Walk
import Savegame.Proofs.Keys
import Savegame.Proofs.Listing
import Savegame.Proofs.SlotStore
import Savegame.Proofs.FailedSave
import Savegame.Proofs.NewestFirst
import Savegame.Proofs.Recovery
import Savegame.Proofs.Seconds
import Savegame.Proofs.Saving
import Savegame.Proofs.Evaluation
import Savegame.Proofs.Access
import Savegame.Proofs.FileManager
import Savegame.Proofs.ReadableSaves
import Savegame.Proofs.Packing
import Savegame.Proofs.Wording
import Savegame.Proofs.Spacing
import Savegame.Proofs.Inventory
import Savegame.Proofs.Accounting
import Savegame.Proofs.WrittenCopy
import Savegame.Proofs.Preview
import Savegame.Proofs.Decimal
import Savegame.Proofs.Rounding
import Savegame.Proofs.NumberText
import Savegame.Proofs.Summary
import Savegame.Proofs.Conversion
import Savegame.Proofs.ConvertedFile
import Savegame.Proofs.FixedPoint
import Savegame.Proofs.Resaving
import Savegame.Proofs.Number
import Savegame.Proofs.SavedNumbers
import Savegame.Proofs.Precision
import Savegame.Proofs.Order
import Savegame.Proofs.Serializer
import Savegame.Proofs.Position
