import Reckon.Main
import Reckon.Session
import Reckon.Proofs.Redundancy
import Reckon.Proofs.ReleaseOrder
import Reckon.Proofs.Substitution
import Reckon.Proofs.Writing
import Reckon.Proofs.Forest
import Reckon.Proofs.Conservation
import Reckon.Proofs.Balance
import Reckon.Proofs.Modes
import Reckon.Proofs.Longest
import Reckon.Proofs.Segmentation
import Reckon.Proofs.Printing
import Reckon.Proofs.Rereading
import Reckon.Proofs.Lockstep
import Reckon.Proofs.WellFormed
import Reckon.Proofs.Acceptance
import Reckon.Proofs.Grouping
import Reckon.Proofs.Undefined
import Reckon.Proofs.Items
import Reckon.Proofs.Wrapping
import Reckon.Proofs.Outermost
import Reckon.Proofs.Spacing
import Reckon.Proofs.Agreement
import Reckon.Proofs.Division
import Reckon.Proofs.Requests
import Reckon.Proofs.Defining
import Reckon.Proofs.Layers
import Reckon.Proofs.Levels
import Reckon.Proofs.Logging
