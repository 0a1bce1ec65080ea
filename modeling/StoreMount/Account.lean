import StoreMount.Path
import StoreMount.Text.Decimal
import StoreMount.Text.Quoted

/-!
# Accounts

A connection is made with an account: the proxy user proves who it is, and the session then acts for
the client user. Shown as a record, an account leaves out the password and what identifies nobody.
-/
namespace StoreMount

inductive UserType
  | admin
  | regular
  | group
deriving DecidableEq, Repr, Inhabited

structure Account where
  host : String
  portNumber : UInt16
  zone : String
  defaultResource : String
  proxyUser : String
  proxyPassword : String
  clientUser : String
  home : Path
deriving DecidableEq, Repr

namespace Account

def actingAs (a : Account) (user : String) : Account := { a with clientUser := user }

def shown (a : Account) : String :=
  "Account \x7b host: " ++ Text.Quoted.quote a.host
    ++ ", port: " ++ String.ofList (Text.Decimal.render a.portNumber.toNat)
    ++ ", zone: " ++ Text.Quoted.quote a.zone
    ++ ", proxy_user: " ++ Text.Quoted.quote a.proxyUser
    ++ ", client_user: " ++ Text.Quoted.quote a.clientUser ++ ", .. \x7d"

end Account

structure KnownUser where
  name : String
  zone : String
  type : UserType
deriving DecidableEq, Repr

end StoreMount
