/-!
# Coded vocabularies

Several vocabularies of the vehicle contract are finite lists of cases, each
with a name and a number of its own.  A number that belongs to no case stands
for the fallback case of its vocabulary.
-/

namespace VehicleRelay

class Coded (Case : Type) where
  cases : List Case
  name : Case → String
  code : Case → Int32
  fallback : Case

namespace Coded

variable {Case : Type} [Coded Case]

def ofCode? (number : Int32) : Option Case :=
  (cases : List Case).find? fun candidate => code candidate == number

def ofCode (number : Int32) : Case :=
  (ofCode? number).getD fallback

def ofName? (text : String) : Option Case :=
  (cases : List Case).find? fun candidate => name candidate == text

end Coded

end VehicleRelay
