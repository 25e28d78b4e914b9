import PackScript.CommandLine.Directory
import PackScript.Main
import PackScript.Program.Same
import PackScript.Proofs.ChannelFrame
import PackScript.Proofs.Command.Line
import PackScript.Proofs.Constants
import PackScript.Proofs.Control.Script
import PackScript.Proofs.DirectCalls
import PackScript.Proofs.DueTicks
import PackScript.Proofs.HeapFresh
import PackScript.Proofs.Json.Program
import PackScript.Proofs.Leftovers
import PackScript.Proofs.LoopBindings
import PackScript.Proofs.Machine.Halting
import PackScript.Proofs.Members
import PackScript.Proofs.Parse.Nesting
import PackScript.Proofs.Parse.Parentheses
import PackScript.Proofs.Parse.Precedence
import PackScript.Proofs.Reentry
import PackScript.Proofs.ReturnCode
import PackScript.Proofs.Settlement
import PackScript.Proofs.Token.Rewind
import PackScript.Proofs.Truth
import PackScript.Proofs.UnaryFolding
import PackScript.Proofs.UnitNames
import PackScript.Proofs.VarScope
import PackScript.Proofs.TreePaths
import PackScript.Proofs.CallDepth
import PackScript.Proofs.Token.Numeral
import PackScript.Proofs.FailedTick
import PackScript.Proofs.CallCircles
