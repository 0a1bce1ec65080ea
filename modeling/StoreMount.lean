import StoreMount.Host
import StoreMount.Main
import StoreMount.Proofs.Registry.Moves
import StoreMount.Proofs.Facade.Transparency
import StoreMount.Proofs.Resolver.Calls
import StoreMount.Proofs.Facade.Confinement
import StoreMount.Proofs.Facade.Directories
import StoreMount.Proofs.Facade.Enforcement
import StoreMount.Proofs.Facade.Ownership
import StoreMount.Proofs.Facade.Scene
import StoreMount.Proofs.Store.Homes
import StoreMount.Proofs.Store.Authority
import StoreMount.Proofs.Store.Renames
import StoreMount.Proofs.Facade.Atomicity
import StoreMount.Proofs.Facade.Forfeit
import StoreMount.Proofs.Facade.Retirement
import StoreMount.Proofs.Facade.Delegation
import StoreMount.Proofs.Facade.Revocation
import StoreMount.Proofs.Facade.Labels
import StoreMount.Proofs.Facade.RoundTrip
import StoreMount.Proofs.Resolver.Generations
import StoreMount.Proofs.Cache.History
import StoreMount.Proofs.Host
import StoreMount.Proofs.Facade.Narrowing
import StoreMount.Proofs.Facade.Patching
import StoreMount.Proofs.Facade.Navigation
import StoreMount.Proofs.Facade.Removal
import StoreMount.Proofs.AllowList
import StoreMount.Proofs.Service
import StoreMount.Proofs.Home
