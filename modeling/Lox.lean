import Lox.Environment.Chain
import Lox.Proofs.ScopeDiscipline
import Lox.Proofs.Scopes.Resolution
import Lox.Session
import Lox.Proofs.Scopes.Simulation
import Lox.Proofs.Scopes.Desugaring
import Lox.Proofs.Scopes.Renaming
import Lox.Proofs.Faults
import Lox.Proofs.Scopes.WellScoped
import Lox.Proofs.Programs
import Lox.Proofs.Runs
import Lox.Proofs.Equivalence
import Lox.Proofs.Integers
import Lox.Proofs.Independence
import Lox.Proofs.Points
import Lox.Proofs.Environment
import Lox.Proofs.Assignments
import Lox.Proofs.ScopeLog
import Lox.Proofs.Lexemes
import Lox.Proofs.Rewording
import Lox.Proofs.Numerals
import Lox.Proofs.Objections
import Lox.Proofs.Order
import Lox.Proofs.Counting
import Lox.Proofs.Origins
import Lox.Proofs.Printing
import Lox.Proofs.Readings
import Lox.Proofs.Shortest
import Lox.Proofs.Unreached
