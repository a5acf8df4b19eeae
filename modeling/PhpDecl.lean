import PhpDecl.Fault.Message
import PhpDecl.Proofs.Arenas
import PhpDecl.Proofs.ArrayKeys
import PhpDecl.Proofs.ArrayLines
import PhpDecl.Proofs.BodyLines
import PhpDecl.Proofs.Brackets
import PhpDecl.Proofs.CommentBlocks
import PhpDecl.Proofs.Comments
import PhpDecl.Proofs.Construction
import PhpDecl.Proofs.Copies
import PhpDecl.Proofs.Decomposition
import PhpDecl.Proofs.Embed
import PhpDecl.Proofs.Entries
import PhpDecl.Proofs.Fields
import PhpDecl.Proofs.FloatLiterals
import PhpDecl.Proofs.Frame
import PhpDecl.Proofs.Frame.Term
import PhpDecl.Proofs.Heads
import PhpDecl.Proofs.Imports
import PhpDecl.Proofs.Indentation
import PhpDecl.Proofs.Keeps
import PhpDecl.Proofs.Lifetime
import PhpDecl.Proofs.Lines
import PhpDecl.Proofs.Literals
import PhpDecl.Proofs.LongIntegers
import PhpDecl.Proofs.Lower
import PhpDecl.Proofs.Margins
import PhpDecl.Proofs.MemberCalls
import PhpDecl.Proofs.MemberMaps
import PhpDecl.Proofs.MemberOutcomes
import PhpDecl.Proofs.MemberWrites
import PhpDecl.Proofs.MethodBodies
import PhpDecl.Proofs.NameGrammar
import PhpDecl.Proofs.Names
import PhpDecl.Proofs.NormalForm
import PhpDecl.Proofs.NormalLiterals
import PhpDecl.Proofs.ParameterLines
import PhpDecl.Proofs.ParameterLists
import PhpDecl.Proofs.Paths
import PhpDecl.Proofs.Placement
import PhpDecl.Proofs.PreValidation
import PhpDecl.Proofs.Reachability
import PhpDecl.Proofs.Reading
import PhpDecl.Proofs.Reading.Dump
import PhpDecl.Proofs.Reading.Number
import PhpDecl.Proofs.Reading.Quoted
import PhpDecl.Proofs.Reading.Rational
import PhpDecl.Proofs.Reading.Run
import PhpDecl.Proofs.Refusal
import PhpDecl.Proofs.Refusal.Member
import PhpDecl.Proofs.Rendering
import PhpDecl.Proofs.Resolution
import PhpDecl.Proofs.Settle
import PhpDecl.Proofs.ShortNames
import PhpDecl.Proofs.ShortestNames
import PhpDecl.Proofs.Strings
import PhpDecl.Proofs.Stripping
import PhpDecl.Proofs.Tidiness
import PhpDecl.Proofs.Tidiness.Declarations
import PhpDecl.Proofs.Tidiness.Members
import PhpDecl.Proofs.Tidiness.Requests
import PhpDecl.Proofs.Tidiness.Rules
import PhpDecl.Proofs.Tidiness.Steps
import PhpDecl.Proofs.Unfolding
import PhpDecl.Proofs.UniqueNames
import PhpDecl.Proofs.Validators
import PhpDecl.Proofs.Walk
import PhpDecl.Proofs.Wrapping
import PhpDecl.Session
import PhpDecl.Text.Lower
import PhpDecl.Text.Normal
