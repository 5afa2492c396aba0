import TermWindow.Decimal.Reading
import TermWindow.Proofs.Agreement
import TermWindow.Proofs.FieldMatching
import TermWindow.Proofs.LeastWindow
import TermWindow.Proofs.Rendering
import TermWindow.Proofs.Grammar
import TermWindow.Proofs.DifferentPositions
import TermWindow.Proofs.Refusals
import TermWindow.Proofs.StoredNumbers
import TermWindow.Proofs.GivenPositions
import TermWindow.Proofs.EasierTasks
import TermWindow.Proofs.GrowingDocuments
import TermWindow.Proofs.ElementOrder
import TermWindow.Proofs.SlotOrder
import TermWindow.Proofs.ChosenIndices
import TermWindow.Proofs.OffendingSlot
import TermWindow.Proofs.EarlyEnd
import TermWindow.Proofs.ShiftedPositions
import TermWindow.Proofs.ReaderOrder
import TermWindow.Proofs.Walk
import TermWindow.Proofs.AcceptedElements
import TermWindow.Proofs.KeptAdditions
import TermWindow.Proofs.Spacing
