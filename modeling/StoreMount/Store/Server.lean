import StoreMount.Store.Session

/-!
# Sessions

A server is a store with the count of sessions ever opened and the count of those open now. Closing
a session twice counts once.
-/
namespace StoreMount

structure Session where
  id : Nat
  user : String
  closed : Bool
deriving DecidableEq, Repr

structure Server where
  store : Store
  opened : Nat
  openNow : Nat

namespace Server

def ofStore (store : Store) : Server := ⟨store, 0, 0⟩

def connect (v : Server) (account : Account) : Except StoreError (Session × Server) := do
  v.store.admits account
  return (⟨v.opened, account.clientUser, false⟩,
    { v with opened := v.opened + 1, openNow := v.openNow + 1 })

def close (v : Server) (session : Session) : Session × Server :=
  if session.closed then (session, v)
  else ({ session with closed := true }, { v with openNow := v.openNow - 1 })

end Server
end StoreMount
