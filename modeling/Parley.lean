import Parley.CommandLine
import Parley.Main
import Parley.Session.Run
import Parley.Proofs.Accesses
import Parley.Proofs.Addressing
import Parley.Proofs.Aiming
import Parley.Proofs.Answering
import Parley.Proofs.Arithmetic
import Parley.Proofs.Bindings
import Parley.Proofs.Caches
import Parley.Proofs.Compiled
import Parley.Proofs.Crowds
import Parley.Proofs.Deciding
import Parley.Proofs.Declining
import Parley.Proofs.Equality
import Parley.Proofs.Escaping
import Parley.Proofs.InPlace
import Parley.Proofs.Inheritance
import Parley.Proofs.Iterating
import Parley.Proofs.Performing
import Parley.Proofs.Printing
import Parley.Proofs.Races
import Parley.Proofs.Repeating
import Parley.Proofs.Replying
import Parley.Proofs.Specialization
import Parley.Proofs.Touches
import Parley.Proofs.Translating
import Parley.Proofs.Unwinding
