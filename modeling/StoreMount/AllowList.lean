import StoreMount.Link

/-!
# The allow-list

Accounts and groups that carry a certain metadata key may edit access lists below the paths that its
values name. The list is read from the store as a whole; a reading that fails leaves the list as it
was, and before the first reading it is empty.
-/
namespace StoreMount

structure AllowList where
  account : Account
  key : String
  allowed : Table String (List Path)

namespace AllowList

def defaultKey : String := "irods::nfsrods::grant_nfs4_setfacl"

def new (account : Account) (key : String) : AllowList := ⟨account, key, .empty⟩

def collect (pairs : List (String × String)) : Table String (List Path) :=
  pairs.foldl (fun t e => t.insert e.1 ((t.get? e.1).getD [] ++ [⟨e.2⟩])) .empty

def receive (a : AllowList) (l : Link) : Except StoreError Unit × AllowList × Link :=
  match Link.enter a.account l with
  | (.error e, l) => (.error e, a, l)
  | (.ok session, l) =>
    let (answer, l) := Link.usersWithMetadata session a.key l
    match answer with
    | .ok pairs => (.ok (), { a with allowed := collect pairs }, l.close session)
    | .error e => (.error e, a, l.close session)

def refresh (a : AllowList) (l : Link) : Except StoreError Unit × AllowList × Link :=
  match Link.announce a.account l with
  | (.error e, l) => (.error e, a, l)
  | (.ok (), l) => a.receive l

/-- Whether the user or one of the groups has a path that the asked one is at or below. -/
def allows (a : AllowList) (user : String) (groups : List String) (path : Path) : Bool :=
  (user :: groups).any fun subject =>
    ((a.allowed.get? subject).getD []).any fun base => path.within base

end AllowList
end StoreMount
