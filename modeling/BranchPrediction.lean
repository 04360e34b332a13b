import BranchPrediction.MyBranch.Regret
import BranchPrediction.MyBranch.ResultFile
import BranchPrediction.MyBranch.Components
import BranchPrediction.MyBranch.LoopCost
import BranchPrediction.MyTage.Context
import BranchPrediction.MyTage.Writes
import BranchPrediction.MyTage.Usefulness
import BranchPrediction.MyTage.Alternate
import BranchPrediction.MyTage.Aging
import BranchPrediction.MyTage.Provenance
import BranchPrediction.Agreement
import BranchPrediction.Hindsight
import BranchPrediction.Relocation
import BranchPrediction.MyTage.LoopTable
import BranchPrediction.Dashboard
import BranchPrediction.Representation
import BranchPrediction.Dashboard.Verdict
import BranchPrediction.MyBranch.Static
import BranchPrediction.MyTage.Aliasing
import BranchPrediction.Reports
import BranchPrediction.AllOutcomes
import BranchPrediction.Dashboard.Program
import BranchPrediction.Bubble2
import BranchPrediction.Matrix3
import BranchPrediction.Bfs4
import BranchPrediction.Logs5
