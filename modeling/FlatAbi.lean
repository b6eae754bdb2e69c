import FlatAbi.Main
import FlatAbi.Proofs.CommandLine.DryRun
import FlatAbi.Proofs.CxxType.ArgumentLists
import FlatAbi.Proofs.CxxType.DeclaratorChains
import FlatAbi.Proofs.Emission.CharacterLiterals
import FlatAbi.Proofs.Emission.Exceptions
import FlatAbi.Proofs.Emission.Includes
import FlatAbi.Proofs.Emission.Order
import FlatAbi.Proofs.Emission.Unreadable
import FlatAbi.Proofs.Facade.Definitions
import FlatAbi.Proofs.Facade.Forwarding
import FlatAbi.Proofs.Files.AtomicWrite
import FlatAbi.Proofs.Header.OpaqueTypes
import FlatAbi.Proofs.Header.References
import FlatAbi.Proofs.Inheritance.Abstractness
import FlatAbi.Proofs.Inheritance.Collisions
import FlatAbi.Proofs.Naming.ConstOverloads
import FlatAbi.Proofs.Naming.ReopenedScopes
import FlatAbi.Proofs.Naming.Uncached
import FlatAbi.Proofs.Resolver.Boundary
import FlatAbi.Proofs.Resolver.TypedefRoutes
import FlatAbi.Proofs.Resolver.TypedefScopes
import FlatAbi.Proofs.Typemap.Rules
import FlatAbi.Proofs.Wrapper.Sides
import FlatAbi.Proofs.Wrapper.Transparency
