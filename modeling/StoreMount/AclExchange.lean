import StoreMount.Resolver

/-!
# Access lists between store and protocol

The store names subjects by account name, the protocol by decimal user or group number, and by name
when a subject is given as text that is no number. An entry of the protocol becomes an entry of the
store only if it allows something, its subject can be named, its mask asks for a level, and the
store knows the account; the store is asked last.
-/
namespace StoreMount.AclExchange

def toAce (r : Resolver) (ids : Identities) (e : PermissionEntry) : Ace :=
  match e.kind with
  | .group =>
    ⟨Text.Decimal.render32 (Resolver.gidForName ids e.name), .allow, .identifierGroup,
      .ofLevel e.level⟩
  | .individual =>
    ⟨Text.Decimal.render32 (r.uidForName ids e.name), .allow, .none, .ofLevel e.level⟩

def subjectName? (r : Resolver) (ids : Identities) (ace : Ace) : Option String :=
  match Text.Decimal.read32? ace.who with
  | some id => if ace.isGroup then Resolver.nameForGid? ids id else r.nameForUid? ids id
  | none => some ace.who

def request? (r : Resolver) (ids : Identities) (ace : Ace) : Option (String × Level) :=
  if ace.type = .allow then
    (subjectName? r ids ace).bind fun name => ace.mask.level?.map fun level => (name, level)
  else none

def toEntry (r : Resolver) (ids : Identities) (session : Session) (ace : Ace) :
    LinkM StoreError (Option PermissionEntry) := do
  match request? r ids ace with
  | none => return none
  | some (name, level) =>
    match ← Link.findUser session name with
    | none => return none
    | some user => return some ⟨user.name, ace.subjectKind, user.zone, level⟩

def toEntries (r : Resolver) (ids : Identities) (session : Session) :
    List Ace → LinkM StoreError (List PermissionEntry)
  | [] => return []
  | ace :: aces => do
    let entry ← toEntry r ids session ace
    let entries ← toEntries r ids session aces
    return entry.toList ++ entries

end StoreMount.AclExchange
