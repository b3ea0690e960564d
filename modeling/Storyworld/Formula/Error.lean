import Storyworld.Formula.Printer
import Storyworld.Formula.Token

namespace Storyworld

inductive KindFault where
  | factorialOfNoNumber
  | notReal
  | notReals
  | notNumber
  | complexArgument
  | notMapped
  | negatedText
  | textOperand (op : Op)
  | matrixOnRight (op : Op)
  | betweenMatrices (op : Op)
  | complexModulo
  | transposeOfNoMatrix
  | determinantOfNoMatrix
  | derivativeArguments
deriving DecidableEq

def KindFault.reason : KindFault → String
  | factorialOfNoNumber => "factorial expects a number"
  | notReal => "expected a real number"
  | notReals => "expected real numbers"
  | notNumber => "expected a number"
  | complexArgument => "function is not defined for complex numbers"
  | notMapped => "function expects a number"
  | negatedText => "cannot negate text"
  | textOperand op => "operator " ++ op.symbol.toString ++ " does not apply to text"
  | matrixOnRight op => "operator " ++ op.symbol.toString ++ " does not accept a matrix on the right"
  | betweenMatrices op => "operator " ++ op.symbol.toString ++ " is not defined between matrices"
  | complexModulo => "modulo is not defined for complex numbers"
  | transposeOfNoMatrix => "transpose expects a matrix"
  | determinantOfNoMatrix => "det expects a matrix"
  | derivativeArguments => "derivative expects an expression and a variable name"

inductive DomainFault where
  | notIntegers (function : String)
  | factorial (x : Float)
  | differentDimensions
  | raggedMatrix
  | notSquare
  | notDifferentiable (e : Formula)

def DomainFault.reason : DomainFault → String
  | notIntegers function => function ++ " expects integers"
  | factorial x => "factorial of " ++ Decimal.showSettled x
  | differentDimensions => "matrix dimensions differ"
  | raggedMatrix => "ragged matrix"
  | notSquare => "det expects a square matrix"
  | notDifferentiable e => "cannot differentiate " ++ e.display

inductive FormulaError where
  | unexpectedChar (c : Char)
  | malformedNumber (raw : String)
  | unexpectedToken (token : Token)
  | unexpectedEnd
  | tooDeep
  | unknownSymbol (name : String)
  | unknownFunction (name : String)
  | arity (function : String)
  | kind (fault : KindFault)
  | domain (fault : DomainFault)

def FormulaError.message : FormulaError → String
  | unexpectedChar c => "unexpected character '" ++ c.toString ++ "'"
  | malformedNumber raw => "unexpected token " ++ raw
  | unexpectedToken token => "unexpected token " ++ token.describe
  | unexpectedEnd => "unexpected end of expression"
  | tooDeep => "expression nested too deeply"
  | unknownSymbol name => "unknown symbol '" ++ name ++ "'"
  | unknownFunction name => "unknown function '" ++ name ++ "'"
  | arity function => "wrong number of arguments for " ++ function
  | kind fault => "type error: " ++ fault.reason
  | domain fault => "domain error: " ++ fault.reason

end Storyworld
