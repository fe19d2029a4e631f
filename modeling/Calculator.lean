import Calculator.Main
import Calculator.Proofs.Announcing
import Calculator.Proofs.Arrangement
import Calculator.Proofs.Enclosing
import Calculator.Proofs.Forest
import Calculator.Proofs.Formatting
import Calculator.Proofs.Fronts
import Calculator.Proofs.Options.Writing
import Calculator.Proofs.Order
import Calculator.Proofs.Panel.History
import Calculator.Proofs.Panel.Spacing
import Calculator.Proofs.Panel.Undoing
import Calculator.Proofs.Session.Exit
import Calculator.Proofs.Session.Limits
import Calculator.Proofs.Shown
import Calculator.Proofs.Stopping
import Calculator.Proofs.Waiting
