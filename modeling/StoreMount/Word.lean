/-!
# Bounds of machine words

The first natural numbers that do not fit words of 16, 32 and 64 bits, and the first that does not
fit a signed word of 64 bits.
-/
namespace StoreMount.Word

def bound16 : Nat := 65536
def bound32 : Nat := 4294967296
def bound64 : Nat := 18446744073709551616
def signedBound64 : Nat := 9223372036854775808

end StoreMount.Word
